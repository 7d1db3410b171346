import TextTidy.Text.Position

/-!
# Places, character by character

The line and the column of an offset are found by splitting what stands before it. Going through the
same characters one at a time leads to the same place: a line feed begins a line, and every other
character moves on by a column.
-/

namespace TextTidy.Text

/-- The first place of a text. -/
def Place.start : Place := ⟨1, 1⟩

/-- The place behind a character at a place. -/
def Place.behind (p : Place) (c : CodePoint) : Place :=
  if c = .char '\n' then ⟨p.line + 1, 1⟩ else ⟨p.line, p.column + 1⟩

theorem Place.behind_newline (p : Place) : p.behind (.char '\n') = ⟨p.line + 1, 1⟩ := rfl

theorem Place.behind_other (p : Place) {c : CodePoint} (hc : c ≠ .char '\n') :
    p.behind c = ⟨p.line, p.column + 1⟩ := if_neg hc

/-- The place behind a text at a place. -/
def Place.after (p : Place) (s : Text) : Place := s.foldl Place.behind p

@[simp] theorem Place.after_nil (p : Place) : p.after [] = p := rfl

theorem Place.after_cons (p : Place) (c : CodePoint) (s : Text) :
    p.after (c :: s) = (p.behind c).after s := rfl

/-- Behind a text that begins on a line, the line is the one of its last part. -/
theorem Place.after_eq_of_splitOn {s first : Text} {others : List Text} (p : Place)
    (h : splitOn (.char '\n') s = first :: others) :
    p.after s = ⟨p.line + others.length,
      match others.getLast? with
      | none => first.length + p.column
      | some last => last.length + 1⟩ := by
  induction s generalizing p first others with
  | nil =>
    cases h
    simp
  | cons c s ih =>
    obtain ⟨first', others', hs⟩ := List.exists_cons_of_ne_nil (splitOn_ne_nil (.char '\n') s)
    rw [splitOn, hs] at h
    rw [after_cons]
    split at h
    · rename_i hc
      subst hc
      cases h
      rw [behind_newline, ih _ hs, List.getLast?_cons, List.length_cons, Nat.add_right_comm,
        Nat.add_assoc p.line]
      cases others'.getLast? <;> rfl
    · rename_i hc
      cases h
      rw [behind_other p hc, ih _ hs, List.length_cons, Nat.add_right_comm, Nat.add_assoc]

/-- An offset is at the place behind the characters before it. -/
theorem placeOf_eq_after (s : Text) (n : Nat) : s.placeOf n = Place.start.after (s.take n) := by
  obtain ⟨first, others, hs⟩ :=
    List.exists_cons_of_ne_nil (splitOn_ne_nil (.char '\n') (s.take n))
  have hplace : s.placeOf n =
      ⟨(splitOn (.char '\n') (s.take n)).length,
        ((splitOn (.char '\n') (s.take n)).getLastD []).length + 1⟩ := rfl
  rw [hplace, Place.after_eq_of_splitOn .start hs, hs, List.length_cons, Nat.add_comm,
    List.getLastD_eq_getLast?, List.getLast?_cons]
  cases others.getLast? <;> rfl

theorem placeOf_append (front left : Text) :
    (front ++ left).placeOf front.length = Place.start.after front := by
  rw [placeOf_eq_after, List.take_left]

/-! ## A column more at the start -/

theorem Place.line_le_after (p : Place) (s : Text) : p.line ≤ (p.after s).line := by
  induction s generalizing p with
  | nil => exact Nat.le_refl _
  | cons c s ih =>
    refine Nat.le_trans ?_ (ih (p.behind c))
    unfold behind
    split
    · exact Nat.le_succ _
    · exact Nat.le_refl _

/-- A text that begins one column further ends one column further, if it ends on the line on which
it begins, and at the same place if it does not. -/
theorem Place.after_next_column (p : Place) (s : Text) :
    Place.after ⟨p.line, p.column + 1⟩ s =
      ⟨(p.after s).line,
        if (p.after s).line = p.line then (p.after s).column + 1 else (p.after s).column⟩ := by
  induction s generalizing p with
  | nil => simp
  | cons c s ih =>
    rw [after_cons, after_cons]
    by_cases hc : c = .char '\n'
    · subst hc
      have hline := line_le_after (p.behind (.char '\n')) s
      rw [behind_newline] at hline ⊢
      rw [behind_newline, if_neg (Nat.ne_of_gt hline)]
    · rw [behind_other _ hc, behind_other p hc]
      exact ih ⟨p.line, p.column + 1⟩

end TextTidy.Text
