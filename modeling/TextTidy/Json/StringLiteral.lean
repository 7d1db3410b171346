import TextTidy.Json.Fault

/-!
# Strings in JSON texts

Reading the characters between the quotes. Each of them stands for itself or is written as an escape
of several characters; two escapes that name the halves of a surrogate pair stand for one character.
-/

namespace TextTidy.Json

/-- The value of a hexadecimal digit. -/
def hexDigit? : CodePoint → Option Nat
  | .char c => Text.hexDigit? c
  | .surrogate _ => none

/-- The code point that four hexadecimal digits name. The text must not end with them. -/
def fourDigits? : Text → Option CodePoint
  | a :: b :: c :: d :: _ :: _ => do
    let a ← hexDigit? a
    let b ← hexDigit? b
    let c ← hexDigit? c
    let d ← hexDigit? d
    CodePoint.ofNat? (((a * 16 + b) * 16 + c) * 16 + d)
  | _ => none

/-- The code point of a numeric escape, from its first digit on, and how many characters that is. -/
def numericEscape? (digits : Text) : Option (CodePoint × Nat) := do
  let first ← fourDigits? digits
  match digits.drop 4 with
  | .char '\\' :: .char 'u' :: more =>
    match (fourDigits? more).bind first.join? with
    | some joined => some (joined, 10)
    | none => some (first, 4)
  | _ => some (first, 4)

/-- The character of an escape of one letter. -/
def letterEscape? : CodePoint → Option Char
  | .char '"' => some '"'
  | .char '\\' => some '\\'
  | .char '/' => some '/'
  | .char 'b' => some '\x08'
  | .char 'f' => some '\x0c'
  | .char 'n' => some '\n'
  | .char 'r' => some '\r'
  | .char 't' => some '\t'
  | _ => none

/-- What stands at a place in a string: its closing quote, or a code point and how many characters
    after the first it takes. -/
inductive Element where
  | close
  | point (c : CodePoint) (more : Nat)

/-- The element at a place in the string that begins at `opening`. -/
def element (opening : Text) (first : CodePoint) (rest : Text) : Except Fault Element :=
  match first with
  | .char '"' => .ok .close
  | .char '\\' =>
    match rest with
    | [] => .error (.malformed .openString opening)
    | .char 'u' :: digits =>
      match numericEscape? digits with
      | some (c, used) => .ok (.point c (used + 1))
      | none => .error (.malformed .incompleteEscape rest)
    | letter :: _ =>
      match letterEscape? letter with
      | some c => .ok (.point (.char c) 1)
      | none => .error (.malformed .unknownEscape (first :: rest))
  | _ =>
    if first.value < 0x20 then .error (.malformed .controlCharacter (first :: rest))
    else .ok (.point first 0)

/-- The text of the string that begins at `opening`, up to its closing quote, and what is left
    behind it; `skip` characters still belong to the element before. -/
def charactersFrom (opening : Text) : (skip : Nat) → Text → Except Fault (Text × Text)
  | _, [] => .error (.malformed .openString opening)
  | skip + 1, _ :: rest => charactersFrom opening skip rest
  | 0, c :: rest =>
    match element opening c rest with
    | .error fault => .error fault
    | .ok .close => .ok ([], rest)
    | .ok (.point p more) =>
      match charactersFrom opening more rest with
      | .error fault => .error fault
      | .ok (s, left) => .ok (p :: s, left)

theorem charactersFrom_shorter {opening s t left : Text} {skip : Nat}
    (h : charactersFrom opening skip s = .ok (t, left)) : left.length < s.length := by
  induction s generalizing skip t with
  | nil => cases skip <;> simp [charactersFrom] at h
  | cons c rest ih =>
    cases skip with
    | succ skip => exact Nat.lt_succ_of_lt (ih h)
    | zero =>
      rw [charactersFrom] at h
      split at h
      · cases h
      · cases h
        simp
      · split at h
        · cases h
        · cases h
          rename_i hrest
          exact Nat.lt_succ_of_lt (ih hrest)

/-- Reads a string, from the text behind its opening quote on. -/
def stringLiteral (opening : Text) : Reader Text := fun s =>
  match h : charactersFrom opening 0 s with
  | .error fault => .error fault
  | .ok (t, left) => .ok (t, ⟨left, charactersFrom_shorter h⟩)

end TextTidy.Json
