import TextTidy.Json.NumberLiteral
import TextTidy.Json.StringLiteral

/-!
# Reading JSON

A reader takes a value from the start of a text and returns what is left behind it, which is always
shorter; that is why the loops over items and members end. Nesting is bounded, since a reader that
calls itself needs room for every array and object that is open, and only its caller knows how much
there is left: the number of levels is given to the reader, and every array or object uses one of
them up. Two dialects are read: strict JSON, and one that also has words for infinities and for what
is no number.
-/

namespace TextTidy.Json

/-- Which texts count as values. -/
inductive Dialect where
  | strict
  | lenient
deriving DecidableEq, Repr

/-- The value of a word for a number that strict JSON does not have. -/
def Dialect.constant? : Dialect → Constant → Option Value
  | strict, _ => none
  | lenient, .nan => some (.float .nan)
  | lenient, .infinity => some (.float (.infinite false))
  | lenient, .negativeInfinity => some (.float (.infinite true))

/-- Whether a code point may stand between the parts of a JSON text. -/
def isSpacing (c : CodePoint) : Bool :=
  c == .char ' ' || c == .char '\t' || c == .char '\n' || c == .char '\r'

/-- A text without the spacing at its start. -/
def skipSpacing (s : Text) : Text := s.dropWhile isSpacing

/-- The first of some words that a text begins with, and what is left behind it. -/
def oneOf? {α : Type} (words : List (String × α)) (s : Text) : Option (α × Text) :=
  words.findSome? fun word => (s.dropStart? word.1.toList).map fun left => (word.2, left)

/-- The words for values. -/
def keywords : List (String × Value) :=
  [("null", .null), ("true", .bool true), ("false", .bool false)]

/-- The words for numbers that strict JSON does not have. -/
def constantWords : List (String × Constant) := Constant.all.map fun word => (word.name, word)

/-! ## Reading always takes something -/

theorem skipSpacing_length_le (s : Text) : (skipSpacing s).length ≤ s.length :=
  (List.dropWhile_suffix isSpacing).length_le

theorem dropStart?_length {start : List Char} {s left : Text}
    (h : s.dropStart? start = some left) : s.length = start.length + left.length := by
  induction start generalizing s with
  | nil =>
    cases h
    simp
  | cons a start ih =>
    cases s with
    | nil => cases h
    | cons c s =>
      rw [Text.dropStart?] at h
      split at h
      · have := ih h
        simp only [List.length_cons]
        omega
      · cases h

theorem oneOf?_shorter {α : Type} {words : List (String × α)} {s left : Text} {a : α}
    (hwords : ∀ word ∈ words, 0 < word.1.toList.length) (h : oneOf? words s = some (a, left)) :
    left.length < s.length := by
  obtain ⟨word, hmem, hword⟩ := List.exists_of_findSome?_eq_some h
  obtain ⟨rest, hrest, heq⟩ := Option.map_eq_some_iff.1 hword
  cases heq
  have := hwords word hmem
  have := dropStart?_length hrest
  omega

theorem keywords_nonempty : ∀ word ∈ keywords, 0 < word.1.toList.length := by
  simp [keywords]

theorem constantWords_nonempty : ∀ word ∈ constantWords, 0 < word.1.toList.length := by
  simp [constantWords, Constant.all, Constant.name]

theorem skipSpacing_shorter {s left : Text} {c : CodePoint}
    (h : skipSpacing s = c :: left) : left.length < s.length := by
  have hle := skipSpacing_length_le s
  rw [h, List.length_cons] at hle
  exact hle

/-! ## Values -/

/-- Reads a value that is neither an array nor an object. -/
def scalar (dialect : Dialect) : Reader Value := fun s =>
  match s with
  | .char '"' :: rest =>
    match stringLiteral (.char '"' :: rest) rest with
    | .error fault => .error fault
    | .ok (t, ⟨left, hleft⟩) => .ok (.str t, ⟨left, Nat.lt_succ_of_lt hleft⟩)
  | s =>
    match hk : oneOf? keywords s with
    | some (value, left) => .ok (value, ⟨left, oneOf?_shorter keywords_nonempty hk⟩)
    | none =>
      match hc : oneOf? constantWords s with
      | some (word, left) =>
        match dialect.constant? word with
        | some value => .ok (value, ⟨left, oneOf?_shorter constantWords_nonempty hc⟩)
        | none => .error (.constant word s)
      | none =>
        match hn : numberLiteral? s with
        | none => .error (.malformed .noValue s)
        | some (number, left) =>
          match number.value with
          | .error limit => .error (.beyond limit)
          | .ok value => .ok (value, ⟨left, numberLiteral?_shorter hn⟩)

/-- Reads the items of an array up to its closing bracket, the first item being next. -/
def items (item : Reader Value) (s : Text) : Except Fault (List Value × Shorter s) :=
  match item s with
  | .error fault => .error fault
  | .ok (value, ⟨behind, hbehind⟩) =>
    match hnext : skipSpacing behind with
    | .char ']' :: left =>
      .ok ([value], ⟨left, Nat.lt_trans (skipSpacing_shorter hnext) hbehind⟩)
    | .char ',' :: rest =>
      have hrest : (skipSpacing rest).length < s.length :=
        Nat.lt_of_le_of_lt (skipSpacing_length_le rest)
          (Nat.lt_trans (skipSpacing_shorter hnext) hbehind)
      match items item (skipSpacing rest) with
      | .error fault => .error fault
      | .ok (others, ⟨left, hleft⟩) => .ok (value :: others, ⟨left, Nat.lt_trans hleft hrest⟩)
    | left => .error (.malformed .noComma left)
termination_by s.length

/-- Reads a key, its colon and its value. -/
def pair (item : Reader Value) : Reader (Text × Value) := fun s =>
  match s with
  | .char '"' :: rest =>
    match stringLiteral (.char '"' :: rest) rest with
    | .error fault => .error fault
    | .ok (key, ⟨behind, hbehind⟩) =>
      match hcolon : skipSpacing behind with
      | .char ':' :: rest' =>
        match item (skipSpacing rest') with
        | .error fault => .error fault
        | .ok (value, ⟨left, hleft⟩) =>
          .ok ((key, value), ⟨left, by
            have := skipSpacing_shorter hcolon
            have := skipSpacing_length_le rest'
            simp only [List.length_cons]
            omega⟩)
      | left => .error (.malformed .noColon left)
  | left => .error (.malformed .noName left)

/-- Reads the members of an object up to its closing brace, the first key being next. -/
def pairs (item : Reader Value) (s : Text) : Except Fault (List (Text × Value) × Shorter s) :=
  match pair item s with
  | .error fault => .error fault
  | .ok (member, ⟨behind, hbehind⟩) =>
    match hnext : skipSpacing behind with
    | .char '}' :: left =>
      .ok ([member], ⟨left, Nat.lt_trans (skipSpacing_shorter hnext) hbehind⟩)
    | .char ',' :: rest =>
      have hrest : (skipSpacing rest).length < s.length :=
        Nat.lt_of_le_of_lt (skipSpacing_length_le rest)
          (Nat.lt_trans (skipSpacing_shorter hnext) hbehind)
      match pairs item (skipSpacing rest) with
      | .error fault => .error fault
      | .ok (others, ⟨left, hleft⟩) => .ok (member :: others, ⟨left, Nat.lt_trans hleft hrest⟩)
    | left => .error (.malformed .noComma left)
termination_by s.length

/-- Reads an array, from the text behind its opening bracket on. -/
def array (item : Reader Value) : Reader Value := fun s =>
  match hs : skipSpacing s with
  | .char ']' :: left => .ok (.list [], ⟨left, skipSpacing_shorter hs⟩)
  | _ =>
    match items item (skipSpacing s) with
    | .error fault => .error fault
    | .ok (values, ⟨left, hleft⟩) =>
      .ok (.list values, ⟨left, Nat.lt_of_lt_of_le hleft (skipSpacing_length_le s)⟩)

/-- Reads an object, from the text behind its opening brace on. -/
def object (item : Reader Value) : Reader Value := fun s =>
  match hs : skipSpacing s with
  | .char '}' :: left => .ok (.obj [], ⟨left, skipSpacing_shorter hs⟩)
  | _ =>
    match pairs item (skipSpacing s) with
    | .error fault => .error fault
    | .ok (found, ⟨left, hleft⟩) =>
      .ok (.obj (members found), ⟨left, Nat.lt_of_lt_of_le hleft (skipSpacing_length_le s)⟩)

/-- Reads what a bracket or a brace opened, one character before. -/
def within (container : Reader Value) (opening : CodePoint) (rest : Text) :
    Except Fault (Value × Shorter (opening :: rest)) :=
  match container rest with
  | .error fault => .error fault
  | .ok (value, ⟨left, hleft⟩) => .ok (value, ⟨left, Nat.lt_succ_of_lt hleft⟩)

/-- Reads a value in which at most `levels` arrays and objects are open at once. -/
def value (dialect : Dialect) : (levels : Nat) → Reader Value
  | 0 => fun s =>
    match s with
    | .char '[' :: _ | .char '{' :: _ => .error (.beyond .nesting)
    | s => scalar dialect s
  | levels + 1 => fun s =>
    match s with
    | .char '[' :: rest => within (array (value dialect levels)) (.char '[') rest
    | .char '{' :: rest => within (object (value dialect levels)) (.char '{') rest
    | s => scalar dialect s

/-- The byte order mark. -/
def byteOrderMark : CodePoint := .char '\uFEFF'

/-- The value of a text that holds one value, with spacing around it at most, and no more than
    `levels` arrays and objects inside each other. -/
def document (dialect : Dialect) (levels : Nat) (s : Text) : Except Fault Value :=
  if s.head? = some byteOrderMark then .error (.malformed .secondMark s)
  else
    match value dialect levels (skipSpacing s) with
    | .error fault => .error fault
    | .ok (result, ⟨left, _⟩) =>
      if (skipSpacing left).isEmpty then .ok result
      else .error (.malformed .trailingText (skipSpacing left))

end TextTidy.Json
