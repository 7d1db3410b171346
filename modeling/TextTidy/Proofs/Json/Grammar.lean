import Mathlib.Tactic.Tauto
import TextTidy.Json.NumberLiteral
import TextTidy.Json.StringLiteral

/-!
# The grammar of JSON

The derivations of JSON texts, each with the text that it derives and the value that it denotes. A
derivation that breaks a rule of the grammar cannot be written down: the rules are in the types.
-/

namespace TextTidy.Json.Grammar

/-! ## Spacing -/

/-- The characters that may stand between the parts of a text. -/
inductive Space where
  | blank
  | tab
  | lineFeed
  | carriageReturn
deriving DecidableEq, Repr

def Space.char : Space → Char
  | blank => ' '
  | tab => '\t'
  | lineFeed => '\n'
  | carriageReturn => '\r'

/-- The text of a gap. -/
def spacing (gap : List Space) : Text := gap.map fun c => .char c.char

@[simp] theorem spacing_nil : spacing [] = [] := rfl

/-! ## Numbers -/

abbrev Digit : Type := { c : Char // c.isDigit = true }

def digitsText (digits : List Digit) : Text := digits.map fun d => .char d.val

def digitValues (digits : List Digit) : List Nat := digits.map fun d => d.val.toNat - '0'.toNat

/-- One digit or more. -/
structure Digits where
  first : Digit
  others : List Digit

def Digits.toList (d : Digits) : List Digit := d.first :: d.others

/-- The digits before the point: a zero alone, or digits of which the first one is not zero. -/
inductive Whole where
  | zero
  | other (first : Digit) (nonzero : first.val ≠ '0') (others : List Digit)

def Whole.toList : Whole → List Digit
  | zero => [⟨'0', rfl⟩]
  | other first _ others => first :: others

/-- The sign of an exponent, which may be left out: whether it is a minus sign. -/
def exponentSignText : Option Bool → Text
  | none => []
  | some true => [.char '-']
  | some false => [.char '+']

/-- An exponent: its mark, in either letter case, perhaps a sign, and digits. -/
structure Exponent where
  capital : Bool
  sign : Option Bool
  digits : Digits

namespace Exponent

def mark (e : Exponent) : CodePoint := .char (if e.capital then 'E' else 'e')

def text (e : Exponent) : Text := e.mark :: exponentSignText e.sign ++ digitsText e.digits.toList

def value (e : Exponent) : Int :=
  let n : Int := Text.numberOfDigits (digitValues e.digits.toList)
  if e.sign = some true then -n else n

end Exponent

/-- A point with digits behind it, or nothing. -/
def fractionText : Option Digits → Text
  | none => []
  | some digits => .char '.' :: digitsText digits.toList

def fractionDigits : Option Digits → List Digit
  | none => []
  | some digits => digits.toList

def exponentText : Option Exponent → Text
  | none => []
  | some e => e.text

/-- A number as it is written. -/
structure Number where
  negative : Bool
  whole : Whole
  fraction : Option Digits
  exponent : Option Exponent

namespace Number

def signText (n : Number) : Text := if n.negative then [.char '-'] else []

def text (n : Number) : Text :=
  n.signText ++ digitsText n.whole.toList ++ fractionText n.fraction ++ exponentText n.exponent

/-- An integer is written without a point and without an exponent. -/
def isInteger (n : Number) : Bool := n.fraction.isNone && n.exponent.isNone

/-- The integer that all the digits make up. -/
def allDigits (n : Number) : Nat :=
  Text.numberOfDigits (digitValues (n.whole.toList ++ fractionDigits n.fraction))

/-- The power of ten that the last digit counts. -/
def power (n : Number) : Int :=
  (n.exponent.map Exponent.value).getD 0 - (fractionDigits n.fraction).length

/-- What a number denotes: an integer exactly, anything else the nearest floating-point number. -/
def value (n : Number) : Value :=
  if n.isInteger then .int (if n.negative then -(n.allDigits : Int) else n.allDigits)
  else .float (Binary64.ofDecimal n.negative n.allDigits n.power)

/-- How many digits a number has if it is an integer. -/
def integerLength (n : Number) : Nat := if n.isInteger then n.whole.toList.length else 0

end Number

/-! ## Strings -/

/-- The letters of the escapes, and the characters that these stand for. -/
def escapes : List (Char × Char) :=
  [('"', '"'), ('\\', '\\'), ('/', '/'), ('b', '\x08'), ('f', '\x0c'), ('n', '\n'), ('r', '\r'),
    ('t', '\t')]

/-- A hexadecimal digit, in either letter case. -/
structure HexDigit where
  char : Char
  value : Nat
  spells : Text.hexDigit? char = some value

/-- The four digits of a numeric escape. -/
structure HexDigits where
  first : HexDigit
  second : HexDigit
  third : HexDigit
  fourth : HexDigit

namespace HexDigits

def text (d : HexDigits) : Text :=
  [.char d.first.char, .char d.second.char, .char d.third.char, .char d.fourth.char]

def value (d : HexDigits) : Nat :=
  ((d.first.value * 16 + d.second.value) * 16 + d.third.value) * 16 + d.fourth.value

/-- The code point of that number, which is a surrogate or a character. -/
def point (d : HexDigits) : CodePoint :=
  if h : 0xD800 ≤ d.value ∧ d.value < 0xE000 then .surrogate ⟨d.value - 0xD800, by omega⟩
  else .char (Char.ofNat d.value)

end HexDigits

/-- What a string is made of: characters that stand for themselves, and escapes. -/
inductive Character where
  | plain (c : CodePoint) (visible : 0x20 ≤ c.value) (noQuote : c ≠ .char '"')
      (noBackslash : c ≠ .char '\\')
  | letter (name meaning : Char) (known : (name, meaning) ∈ escapes)
  | numeric (digits : HexDigits)

def Character.text : Character → Text
  | plain c .. => [c]
  | letter name .. => [.char '\\', .char name]
  | numeric digits => .char '\\' :: .char 'u' :: digits.text

def charactersText (cs : List Character) : Text := cs.flatMap Character.text

/-- The text of a string between its quotes. -/
def stringText (cs : List Character) : Text := .char '"' :: charactersText cs ++ [.char '"']

/-- The text that a string denotes. Two numeric escapes in a row that name the halves of a surrogate
    pair stand for one character; a surrogate without its other half stands for itself. -/
def content : List Character → Text
  | [] => []
  | .plain c _ _ _ :: others => c :: content others
  | .letter _ meaning _ :: others => .char meaning :: content others
  | .numeric high :: .numeric low :: others =>
    match high.point.join? low.point with
    | some joined => joined :: content others
    | none => high.point :: content (.numeric low :: others)
  | .numeric digits :: others => digits.point :: content others

/-! ## Objects -/

/-- The members of an object, as the pairs written down leave them: each key once, at its first
    place and with its last value. -/
def settled (pairs : List (Text × Value)) : List (Text × Value) :=
  (pairs.map Prod.fst).eraseDups.filterMap fun key =>
    (pairs.reverse.lookup key).map fun value => (key, value)

/-! ## Values -/

mutual

/-- A value as it is written. -/
inductive Tree where
  | null
  | bool (b : Bool)
  | number (n : Number)
  | string (cs : List Character)
  | emptyArray (gap : List Space)
  | array (items : Items)
  | emptyObject (gap : List Space)
  | object (members : Members)

/-- The items of an array, at least one, with the spacing around each. -/
inductive Items where
  | last (before : List Space) (item : Tree) (behind : List Space)
  | more (before : List Space) (item : Tree) (behind : List Space) (others : Items)

/-- The members of an object, at least one, with the spacing around each key and each value. -/
inductive Members where
  | last (before : List Space) (key : List Character) (behindKey beforeItem : List Space)
      (item : Tree) (behind : List Space)
  | more (before : List Space) (key : List Character) (behindKey beforeItem : List Space)
      (item : Tree) (behind : List Space) (others : Members)

end

/-- A key up to the value that belongs to it. -/
def keyText (before : List Space) (key : List Character) (behindKey beforeItem : List Space) :
    Text :=
  spacing before ++ stringText key ++ spacing behindKey ++ .char ':' :: spacing beforeItem

mutual

def Tree.text : Tree → Text
  | .null => Text.ofString "null"
  | .bool b => Text.ofString (if b then "true" else "false")
  | .number n => n.text
  | .string cs => stringText cs
  | .emptyArray gap => .char '[' :: spacing gap ++ [.char ']']
  | .array items => .char '[' :: items.text ++ [.char ']']
  | .emptyObject gap => .char '{' :: spacing gap ++ [.char '}']
  | .object members => .char '{' :: members.text ++ [.char '}']

def Items.text : Items → Text
  | .last before item behind => spacing before ++ item.text ++ spacing behind
  | .more before item behind others =>
    spacing before ++ item.text ++ spacing behind ++ .char ',' :: others.text

def Members.text : Members → Text
  | .last before key behindKey beforeItem item behind =>
    keyText before key behindKey beforeItem ++ item.text ++ spacing behind
  | .more before key behindKey beforeItem item behind others =>
    keyText before key behindKey beforeItem ++ item.text ++ spacing behind ++ .char ',' ::
      others.text

end

mutual

def Tree.value : Tree → Value
  | .null => .null
  | .bool b => .bool b
  | .number n => n.value
  | .string cs => .str (content cs)
  | .emptyArray _ => .list []
  | .array items => .list items.values
  | .emptyObject _ => .obj []
  | .object members => .obj (settled members.pairs)

def Items.values : Items → List Value
  | .last _ item _ => [item.value]
  | .more _ item _ others => item.value :: others.values

def Members.pairs : Members → List (Text × Value)
  | .last _ key _ _ item _ => [(content key, item.value)]
  | .more _ key _ _ item _ others => (content key, item.value) :: others.pairs

end

mutual

/-- How many arrays and objects are open at once. -/
def Tree.depth : Tree → Nat
  | .null | .bool _ | .number _ | .string _ => 0
  | .emptyArray _ | .emptyObject _ => 1
  | .array items => items.depth + 1
  | .object members => members.depth + 1

def Items.depth : Items → Nat
  | .last _ item _ => item.depth
  | .more _ item _ others => max item.depth others.depth

def Members.depth : Members → Nat
  | .last _ _ _ _ item _ => item.depth
  | .more _ _ _ _ item _ others => max item.depth others.depth

end

mutual

/-- The number of digits of the longest integer. -/
def Tree.longestInteger : Tree → Nat
  | .null | .bool _ | .string _ | .emptyArray _ | .emptyObject _ => 0
  | .number n => n.integerLength
  | .array items => items.longestInteger
  | .object members => members.longestInteger

def Items.longestInteger : Items → Nat
  | .last _ item _ => item.longestInteger
  | .more _ item _ others => max item.longestInteger others.longestInteger

def Members.longestInteger : Members → Nat
  | .last _ _ _ _ item _ => item.longestInteger
  | .more _ _ _ _ item _ others => max item.longestInteger others.longestInteger

end

/-! ## Bounds -/

/-- A value within the bounds of a reader that has some levels of nesting left. -/
def Tree.Fits (t : Tree) (levels : Nat) : Prop :=
  t.depth ≤ levels ∧ t.longestInteger ≤ Text.maxIntegerDigits

def Items.Fits (items : Items) (levels : Nat) : Prop :=
  items.depth ≤ levels ∧ items.longestInteger ≤ Text.maxIntegerDigits

def Members.Fits (members : Members) (levels : Nat) : Prop :=
  members.depth ≤ levels ∧ members.longestInteger ≤ Text.maxIntegerDigits

variable {levels : Nat} {before behindKey beforeItem behind : List Space} {item : Tree}
  {key : List Character}

theorem Tree.fits_array {items : Items} :
    (Tree.array items).Fits (levels + 1) ↔ items.Fits levels := by
  simp [Tree.Fits, Items.Fits, Tree.depth, Tree.longestInteger]

theorem Tree.fits_object {members : Members} :
    (Tree.object members).Fits (levels + 1) ↔ members.Fits levels := by
  simp [Tree.Fits, Members.Fits, Tree.depth, Tree.longestInteger]

theorem Items.fits_last : (Items.last before item behind).Fits levels ↔ item.Fits levels := Iff.rfl

theorem Items.fits_more {others : Items} :
    (Items.more before item behind others).Fits levels ↔
      item.Fits levels ∧ others.Fits levels := by
  simp only [Items.Fits, Tree.Fits, Items.depth, Items.longestInteger, Nat.max_le]
  tauto

theorem Members.fits_last :
    (Members.last before key behindKey beforeItem item behind).Fits levels ↔ item.Fits levels :=
  Iff.rfl

theorem Members.fits_more {others : Members} :
    (Members.more before key behindKey beforeItem item behind others).Fits levels ↔
      item.Fits levels ∧ others.Fits levels := by
  simp only [Members.Fits, Tree.Fits, Members.depth, Members.longestInteger, Nat.max_le]
  tauto

/-! ## Documents -/

/-- A text that holds one value, with spacing around it. -/
structure Document where
  before : List Space
  tree : Tree
  behind : List Space

namespace Document

def text (d : Document) : Text := spacing d.before ++ d.tree.text ++ spacing d.behind

def value (d : Document) : Value := d.tree.value

/-- A document that nests no deeper than some levels and has no integer of too many digits. -/
def Fits (d : Document) (levels : Nat) : Prop := d.tree.Fits levels

end Document

end TextTidy.Json.Grammar
