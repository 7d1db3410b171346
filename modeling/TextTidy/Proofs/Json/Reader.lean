import TextTidy.Json.Reader

/-!
# One step of each reader

Every reader proves that it leaves a shorter text. What it reads and what it leaves does not depend
on that proof; without it each reader satisfies an equation that covers its successes and its
failures alike.
-/

namespace TextTidy.Json

/-- A result without the proof that something was taken. -/
def bare {α : Type} {s : Text} (result : Except Fault (α × Shorter s)) :
    Except Fault (α × Text) :=
  result.map fun (a, left) => (a, left.val)

theorem ok_of_map {α β : Type} {result : Except Fault α} {f : α → β} {b : β}
    (h : result.map f = .ok b) : ∃ a, result = .ok a ∧ f a = b := by
  cases result with
  | error fault => cases h
  | ok a =>
    cases h
    exact ⟨a, rfl, rfl⟩

theorem error_of_map {α β : Type} {result : Except Fault α} {f : α → β} {fault : Fault}
    (h : result.map f = .error fault) : result = .error fault := by
  cases result with
  | error other =>
    cases h
    rfl
  | ok a => cases h

theorem length_of_bare {α : Type} {s left : Text} {result : Except Fault (α × Shorter s)} {a : α}
    (h : bare result = .ok (a, left)) : left.length < s.length := by
  obtain ⟨⟨b, behind, hbehind⟩, -, heq⟩ := ok_of_map h
  cases heq
  exact hbehind

/-- What stands behind an element and a comma is shorter than the text that the element is read
from. -/
theorem length_behind_comma {α : Type} {s left rest : Text}
    {result : Except Fault (α × Shorter s)} {a : α} (h : bare result = .ok (a, left))
    (hcomma : skipSpacing left = .char ',' :: rest) : (skipSpacing rest).length < s.length :=
  calc (skipSpacing rest).length
      ≤ rest.length := skipSpacing_length_le rest
    _ < left.length := skipSpacing_shorter hcomma
    _ < s.length := length_of_bare h

/-! ## Scalars -/

theorem stringLiteral_eq (opening s : Text) :
    bare (stringLiteral opening s) = charactersFrom opening 0 s := by
  unfold stringLiteral
  split
  · rename_i fault hread
    rw [hread]
    rfl
  · rename_i t left hread
    exact hread.symm

theorem scalar_string (dialect : Dialect) (rest : Text) :
    bare (scalar dialect (.char '"' :: rest)) =
      (charactersFrom (.char '"' :: rest) 0 rest).map fun (t, left) => (.str t, left) := by
  rw [← stringLiteral_eq]
  unfold scalar
  simp only
  cases stringLiteral (.char '"' :: rest) rest <;> rfl

theorem scalar_other (dialect : Dialect) {s : Text} (h : s.head? ≠ some (.char '"')) :
    bare (scalar dialect s) =
      match oneOf? keywords s with
      | some (value, left) => .ok (value, left)
      | none =>
        match oneOf? constantWords s with
        | some (word, left) =>
          match dialect.constant? word with
          | some value => .ok (value, left)
          | none => .error (.constant word s)
        | none =>
          match numberLiteral? s with
          | none => .error (.malformed .noValue s)
          | some (number, left) =>
            match number.value with
            | .error limit => .error (.beyond limit)
            | .ok value => .ok (value, left) := by
  unfold scalar
  split
  · exact absurd rfl h
  · split
    · rename_i value left hword
      show Except.ok (value, left) = _
      rw [hword]
    · rename_i hword
      split
      · rename_i word left hconstant
        rw [hword]
        cases hvalue : dialect.constant? word with
        | some value =>
          show Except.ok (value, left) = _
          simp only [hconstant, hvalue]
        | none =>
          show Except.error (Fault.constant word s) = _
          simp only [hconstant, hvalue]
      · rename_i hconstant
        split
        · rename_i hnumber
          show Except.error (Fault.malformed .noValue s) = _
          rw [hword, hconstant, hnumber]
        · rename_i number left hnumber
          rw [hword, hconstant]
          cases hvalue : number.value with
          | error limit =>
            show Except.error (Fault.beyond limit) = _
            simp only [hnumber, hvalue]
          | ok value =>
            show Except.ok (value, left) = _
            simp only [hnumber, hvalue]

/-! ## Items and members -/

/-- What a reader of a sequence does behind one of its elements, where `again` reads the others. -/
def behindElement {α : Type} (close : Char) (again : Text → Except Fault (List α × Text)) :
    α × Text → Except Fault (List α × Text)
  | (a, behind) =>
    match skipSpacing behind with
    | [] => .error (.malformed .noComma [])
    | c :: left =>
      if c = .char close then .ok ([a], left)
      else if c = .char ',' then
        (again (skipSpacing left)).map fun (others, left) => (a :: others, left)
      else .error (.malformed .noComma (c :: left))

section Elements

variable {α : Type} {close : Char} {again : Text → Except Fault (List α × Text)} {a : α}
  {behind left : Text}

theorem behindElement_close (h : skipSpacing behind = .char close :: left) :
    behindElement close again (a, behind) = .ok ([a], left) := by
  simp [behindElement, h]

theorem behindElement_comma (hclose : close ≠ ',') (h : skipSpacing behind = .char ',' :: left) :
    behindElement close again (a, behind) =
      (again (skipSpacing left)).map fun (others, left) => (a :: others, left) := by
  simp [behindElement, h, hclose.symm]

theorem behindElement_other (hclose : ∀ left, skipSpacing behind ≠ .char close :: left)
    (hcomma : ∀ left, skipSpacing behind ≠ .char ',' :: left) :
    behindElement close again (a, behind) = .error (.malformed .noComma (skipSpacing behind)) := by
  cases hnext : skipSpacing behind with
  | nil => simp [behindElement, hnext]
  | cons c left =>
    have h1 : c ≠ .char close := fun hc => hclose left (by rw [hnext, hc])
    have h2 : c ≠ .char ',' := fun hc => hcomma left (by rw [hnext, hc])
    simp [behindElement, hnext, h1, h2]

/-- Behind an element the sequence ends, or the others are read behind a comma. -/
theorem behindElement_eq_ok (hclose : close ≠ ',') {as : List α}
    (h : behindElement close again (a, behind) = .ok (as, left)) :
    (skipSpacing behind = .char close :: left ∧ as = [a]) ∨
      ∃ rest others, skipSpacing behind = .char ',' :: rest ∧
        again (skipSpacing rest) = .ok (others, left) ∧ as = a :: others := by
  by_cases hend : ∃ left, skipSpacing behind = .char close :: left
  · obtain ⟨left', hleft⟩ := hend
    rw [behindElement_close hleft] at h
    cases h
    exact Or.inl ⟨hleft, rfl⟩
  · by_cases hcomma : ∃ rest, skipSpacing behind = .char ',' :: rest
    · obtain ⟨rest, hrest⟩ := hcomma
      rw [behindElement_comma hclose hrest] at h
      obtain ⟨read, hothers, heq⟩ := ok_of_map h
      cases heq
      exact Or.inr ⟨rest, read.1, hrest, hothers, rfl⟩
    · rw [behindElement_other (fun left hleft => hend ⟨left, hleft⟩)
        (fun rest hrest => hcomma ⟨rest, hrest⟩)] at h
      cases h

/-- Behind an element a fault that is not one of form can only come of the others. -/
theorem behindElement_eq_error (hclose : close ≠ ',') {fault : Fault}
    (hfault : ∀ flaw left, fault ≠ .malformed flaw left)
    (h : behindElement close again (a, behind) = .error fault) :
    ∃ rest, skipSpacing behind = .char ',' :: rest ∧
      again (skipSpacing rest) = .error fault := by
  by_cases hend : ∃ left, skipSpacing behind = .char close :: left
  · obtain ⟨left', hleft⟩ := hend
    rw [behindElement_close hleft] at h
    cases h
  · by_cases hcomma : ∃ rest, skipSpacing behind = .char ',' :: rest
    · obtain ⟨rest, hrest⟩ := hcomma
      rw [behindElement_comma hclose hrest] at h
      exact ⟨rest, hrest, error_of_map h⟩
    · rw [behindElement_other (fun left hleft => hend ⟨left, hleft⟩)
        (fun rest hrest => hcomma ⟨rest, hrest⟩)] at h
      cases h
      exact absurd rfl (hfault _ _)

/-! A sequence is an element and what comes behind it. -/

variable {element : Text → Except Fault (α × Text)} {s : Text}
  (hseq : ∀ s, again s = (element s).bind (behindElement close again))

include hseq

theorem sequence_of_ok {read : α × Text} (h : element s = .ok read) :
    again s = behindElement close again read := by
  rw [hseq, h]
  rfl

theorem sequence_of_error {fault : Fault} (h : element s = .error fault) :
    again s = .error fault := by
  rw [hseq, h]
  rfl

theorem sequence_eq_ok (hclose : close ≠ ',') {as : List α} (h : again s = .ok (as, left)) :
    ∃ a behind, element s = .ok (a, behind) ∧
      ((skipSpacing behind = .char close :: left ∧ as = [a]) ∨
        ∃ rest others, skipSpacing behind = .char ',' :: rest ∧
          again (skipSpacing rest) = .ok (others, left) ∧ as = a :: others) := by
  cases hread : element s with
  | error fault =>
    rw [sequence_of_error hseq hread] at h
    cases h
  | ok read =>
    rw [sequence_of_ok hseq hread] at h
    exact ⟨read.1, read.2, rfl, behindElement_eq_ok hclose h⟩

theorem sequence_eq_error (hclose : close ≠ ',') {fault : Fault}
    (hfault : ∀ flaw left, fault ≠ .malformed flaw left) (h : again s = .error fault) :
    element s = .error fault ∨
      ∃ a behind rest, element s = .ok (a, behind) ∧ skipSpacing behind = .char ',' :: rest ∧
        again (skipSpacing rest) = .error fault := by
  cases hread : element s with
  | error fault =>
    rw [sequence_of_error hseq hread] at h
    cases h
    exact Or.inl rfl
  | ok read =>
    rw [sequence_of_ok hseq hread] at h
    obtain ⟨rest, hrest, hothers⟩ := behindElement_eq_error hclose hfault h
    exact Or.inr ⟨read.1, read.2, rest, rfl, hrest, hothers⟩

end Elements

theorem items_eq (item : Reader Value) (s : Text) :
    bare (items item s) =
      (bare (item s)).bind (behindElement ']' fun s => bare (items item s)) := by
  rw [items]
  cases item s with
  | error fault => rfl
  | ok read =>
    obtain ⟨value, behind, hbehind⟩ := read
    show bare _ = behindElement ']' (fun s => bare (items item s)) (value, behind)
    simp only
    split
    · rename_i left hnext
      rw [behindElement_close hnext]
      rfl
    · rename_i rest hnext
      rw [behindElement_comma (by decide) hnext]
      cases items item (skipSpacing rest) <;> rfl
    · rename_i hclose hcomma
      rw [behindElement_other hclose hcomma]
      rfl

theorem pairs_eq (item : Reader Value) (s : Text) :
    bare (pairs item s) =
      (bare (pair item s)).bind (behindElement '}' fun s => bare (pairs item s)) := by
  rw [pairs]
  cases pair item s with
  | error fault => rfl
  | ok read =>
    obtain ⟨member, behind, hbehind⟩ := read
    show bare _ = behindElement '}' (fun s => bare (pairs item s)) (member, behind)
    simp only
    split
    · rename_i left hnext
      rw [behindElement_close hnext]
      rfl
    · rename_i rest hnext
      rw [behindElement_comma (by decide) hnext]
      cases pairs item (skipSpacing rest) <;> rfl
    · rename_i hclose hcomma
      rw [behindElement_other hclose hcomma]
      rfl

theorem array_close (item : Reader Value) {s left : Text} (h : skipSpacing s = .char ']' :: left) :
    bare (array item s) = .ok (.list [], left) := by
  unfold array
  split
  · rename_i hnext
    rw [h] at hnext
    cases hnext
    rfl
  · rename_i hclose
    exact absurd h (hclose left)

theorem array_items (item : Reader Value) {s : Text}
    (h : ∀ left, skipSpacing s ≠ .char ']' :: left) :
    bare (array item s) =
      (bare (items item (skipSpacing s))).map fun (values, left) => (.list values, left) := by
  unfold array
  split
  · rename_i left hnext
    exact absurd hnext (h left)
  · cases items item (skipSpacing s) <;> rfl

theorem object_close (item : Reader Value) {s left : Text}
    (h : skipSpacing s = .char '}' :: left) : bare (object item s) = .ok (.obj [], left) := by
  unfold object
  split
  · rename_i hnext
    rw [h] at hnext
    cases hnext
    rfl
  · rename_i hclose
    exact absurd h (hclose left)

theorem object_pairs (item : Reader Value) {s : Text}
    (h : ∀ left, skipSpacing s ≠ .char '}' :: left) :
    bare (object item s) =
      (bare (pairs item (skipSpacing s))).map fun (found, left) =>
        (.obj (members found), left) := by
  unfold object
  split
  · rename_i left hnext
    exact absurd hnext (h left)
  · cases pairs item (skipSpacing s) <;> rfl

/-- What reading a key and its value does behind the key. -/
def behindKey (item : Reader Value) :
    Text × Text → Except Fault ((Text × Value) × Text)
  | (key, behind) =>
    match skipSpacing behind with
    | [] => .error (.malformed .noColon [])
    | c :: left =>
      if c = .char ':' then
        (bare (item (skipSpacing left))).map fun (value, left) => ((key, value), left)
      else .error (.malformed .noColon (c :: left))

theorem behindKey_colon {item : Reader Value} {key behind left : Text}
    (h : skipSpacing behind = .char ':' :: left) :
    behindKey item (key, behind) =
      (bare (item (skipSpacing left))).map fun (value, left) => ((key, value), left) := by
  simp [behindKey, h]

theorem behindKey_other {item : Reader Value} {key behind : Text}
    (h : ∀ left, skipSpacing behind ≠ .char ':' :: left) :
    behindKey item (key, behind) = .error (.malformed .noColon (skipSpacing behind)) := by
  cases hnext : skipSpacing behind with
  | nil => simp [behindKey, hnext]
  | cons c left =>
    have hcolon : c ≠ .char ':' := fun hc => h left (by rw [hnext, hc])
    simp [behindKey, hnext, hcolon]

theorem pair_quote (item : Reader Value) (rest : Text) :
    bare (pair item (.char '"' :: rest)) =
      (charactersFrom (.char '"' :: rest) 0 rest).bind (behindKey item) := by
  rw [← stringLiteral_eq]
  unfold pair
  simp only
  cases stringLiteral (.char '"' :: rest) rest with
  | error fault => rfl
  | ok read =>
    obtain ⟨key, behind, hbehind⟩ := read
    show bare _ = behindKey item (key, behind)
    simp only
    split
    · rename_i left hcolon
      rw [behindKey_colon hcolon]
      cases item (skipSpacing left) <;> rfl
    · rename_i hcolon
      rw [behindKey_other hcolon]
      rfl

theorem pair_other (item : Reader Value) {s : Text} (h : s.head? ≠ some (.char '"')) :
    bare (pair item s) = .error (.malformed .noName s) := by
  unfold pair
  split
  · exact absurd rfl h
  · rfl

theorem value_array (dialect : Dialect) (levels : Nat) (rest : Text) :
    bare (value dialect (levels + 1) (.char '[' :: rest)) =
      bare (array (value dialect levels) rest) := by
  show bare (within (array (value dialect levels)) (.char '[') rest) = _
  unfold within
  cases array (value dialect levels) rest <;> rfl

theorem value_object (dialect : Dialect) (levels : Nat) (rest : Text) :
    bare (value dialect (levels + 1) (.char '{' :: rest)) =
      bare (object (value dialect levels) rest) := by
  show bare (within (object (value dialect levels)) (.char '{') rest) = _
  unfold within
  cases object (value dialect levels) rest <;> rfl

theorem value_zero {dialect : Dialect} {s : Text}
    (h : s.head? = some (.char '[') ∨ s.head? = some (.char '{')) :
    value dialect 0 s = .error (.beyond .nesting) := by
  cases s with
  | nil => simp at h
  | cons c rest =>
    rcases h with h | h
    · cases h
      rfl
    · cases h
      rfl

/-- A document is read in three steps: no second mark, a value, nothing behind it. -/
theorem document_eq (dialect : Dialect) (levels : Nat) (s : Text) :
    document dialect levels s =
      if s.head? = some byteOrderMark then .error (.malformed .secondMark s)
      else (bare (value dialect levels (skipSpacing s))).bind fun (result, left) =>
        if (skipSpacing left).isEmpty then .ok result
        else .error (.malformed .trailingText (skipSpacing left)) := by
  unfold document
  cases value dialect levels (skipSpacing s) <;> rfl

theorem value_scalar {dialect : Dialect} {s : Text} (harray : s.head? ≠ some (.char '['))
    (hobject : s.head? ≠ some (.char '{')) (levels : Nat) :
    value dialect levels s = scalar dialect s := by
  cases levels with
  | zero =>
    unfold value
    split
    · exact absurd rfl harray
    · exact absurd rfl hobject
    · rfl
  | succ levels =>
    unfold value
    split
    · exact absurd rfl harray
    · exact absurd rfl hobject
    · rfl

end TextTidy.Json
