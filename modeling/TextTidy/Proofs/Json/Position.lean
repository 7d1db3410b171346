import TextTidy.Proofs.Json.ConstantPlace
import TextTidy.Proofs.Json.LockstepReader
import TextTidy.Proofs.Position

/-!
# Where problems are reported

The reader tells of a problem by what it had left of the text, and that is always an end of the text
that it was given. So the reported offset is the length of what stands before it in the text of the
caller, where a byte order mark counts, and line and column are those of that offset.
-/

namespace TextTidy.Json

variable {levels : Nat} {s left : Text} {fault : Fault} {problem : Problem}

/-! ## What the reader has left -/

/-- The problem that a fault in the text itself is, and what was left where it showed. -/
def Fault.site? : Fault → Option (Problem × Text)
  | .malformed flaw left => some (.flaw flaw, left)
  | .constant word left => some (.constant word, left)
  | .beyond _ => none

/-- Two readers that have the same end of a text left keep in step. -/
theorem lockstep_suffix (s : Text) : Lockstep fun left left' => left = left' ∧ left <:+ s where
  nil_left h := h.1.symm
  nil_right h := h.1
  step := by
    rintro c d left left' ⟨heq, hsuffix⟩
    obtain ⟨rfl, rfl⟩ := List.cons.inj heq
    exact Or.inl ⟨rfl, rfl, (List.suffix_cons c left).trans hsuffix⟩

/-- What is left where a text is malformed is an end of the text. -/
theorem suffix_of_malformed {dialect : Dialect} {flaw : Flaw}
    (h : document dialect levels s = .error (.malformed flaw left)) : left <:+ s := by
  have hagree := (lockstep_suffix s).document_agree dialect levels ⟨rfl, List.suffix_refl s⟩
  rw [h] at hagree
  cases hagree with
  | error hfault =>
    cases hfault with
    | malformed _ hleft => exact hleft.2

/-! ## Offsets -/

/-- A problem with a text is reported behind what stands before the place where it showed. -/
theorem parse_of_site (hblank : (withoutMark s).isBlank = false)
    (h : document .strict levels (withoutMark s) = .error fault)
    (hsite : fault.site? = some (problem, left)) :
    ∃ front, s = front ++ left ∧ parse levels s = .error (refusedAt s problem front.length) := by
  obtain ⟨mark, hmark, -⟩ := exists_mark s
  have hlength : s.length - (withoutMark s).length = mark.length := by
    have hlen := congrArg List.length hmark
    rw [List.length_append] at hlen
    omega
  rw [parse_eq levels s hblank, h, hlength]
  cases fault with
  | malformed flaw behind =>
    cases hsite
    obtain ⟨front, hfront⟩ := suffix_of_malformed h
    refine ⟨mark ++ front, by rw [List.append_assoc, hfront, ← hmark], ?_⟩
    simp only [← hfront, List.length_append, Nat.add_sub_cancel]
  | constant word behind =>
    cases hsite
    obtain ⟨front, hfront, -, hoffset, -⟩ := exists_of_document_constant h
    refine ⟨mark ++ front, by rw [List.append_assoc, ← hfront, ← hmark], ?_⟩
    simp only [hoffset, List.length_append]
  | beyond limit => cases hsite

/-- Only what the reader met can be reported. -/
theorem exists_site {m : Malformation} (h : parse levels s = .error (.refused (.malformed m))) :
    (withoutMark s).isBlank = false ∧ ∃ fault left,
      document .strict levels (withoutMark s) = .error fault ∧
        fault.site? = some (m.problem, left) := by
  cases hblank : (withoutMark s).isBlank with
  | true =>
    simp only [parse, hblank, if_true] at h
    cases h
  | false =>
    refine ⟨rfl, ?_⟩
    rw [parse_eq levels s hblank] at h
    split at h
    · cases h
    · rename_i hdocument
      cases h
      exact ⟨_, _, hdocument, rfl⟩
    · rename_i hdocument
      cases h
      exact ⟨_, _, hdocument, rfl⟩
    · cases h

/-! ## A byte order mark more -/

/-- The malformation in a text with a byte order mark before it. -/
def Malformation.behindMark (m : Malformation) : Malformation :=
  ⟨m.problem, m.position + 1,
    ⟨m.place.line, if m.place.line = 1 then m.place.column + 1 else m.place.column⟩⟩

/-- What keeps a text with a byte order mark before it from having a value. -/
def ReadError.behindMark : ReadError → ReadError
  | .refused .empty => .refused .empty
  | .refused (.malformed m) => .refused (.malformed m.behindMark)
  | .beyond limit => .beyond limit

theorem refusedAt_behindMark (s : Text) (problem : Problem) (n : Nat) :
    refusedAt (byteOrderMark :: s) problem (n + 1) = (refusedAt s problem n).behindMark := by
  have hplace : Text.placeOf (byteOrderMark :: s) ↑(n + 1) =
      ⟨(s.placeOf n).line,
        if (s.placeOf n).line = 1 then (s.placeOf n).column + 1 else (s.placeOf n).column⟩ := by
    rw [Text.placeOf_eq_after, Text.placeOf_eq_after, List.take_succ_cons, Text.Place.after_cons,
      Text.Place.behind_other _ (by decide), Text.Place.after_next_column]
    rfl
  rw [refusedAt, hplace]
  rfl

theorem parse_mark (h : s.head? ≠ some byteOrderMark) :
    parse levels (byteOrderMark :: s) = (parse levels s).mapError ReadError.behindMark := by
  have hmarked : withoutMark (byteOrderMark :: s) = s := by rw [withoutMark, if_pos rfl]
  have hunmarked : withoutMark s = s := by
    cases s with
    | nil => rfl
    | cons c rest => rw [withoutMark, if_neg (by simpa using h)]
  cases hblank : s.isBlank with
  | true =>
    simp only [parse, hmarked, hunmarked, hblank, if_true]
    rfl
  | false =>
    have hlength : (byteOrderMark :: s).length - s.length = 1 := by simp
    rw [parse_eq _ _ (by rw [hmarked, hblank]), parse_eq _ s (by rw [hunmarked, hblank]), hmarked,
      hunmarked, hlength, Nat.sub_self]
    rcases document .strict levels s with (⟨flaw, left⟩ | ⟨word, left⟩ | limit) | v
    · simp only [Nat.zero_add, Nat.add_comm 1, refusedAt_behindMark]
      rfl
    · simp only [Nat.zero_add, Nat.add_comm 1, refusedAt_behindMark]
      rfl
    · rfl
    · rfl

/-- A reported place is one in the text of the caller: the offset is that of what the reader had
left when it met the problem, it is not beyond the end, and line and column are its own. With a byte
order mark before it a text is read as without, and every problem lies one character further, which
is a column on the first line and nothing on the others. -/
theorem parse_position (levels : Nat) (s : Text) :
    (∀ m, parse levels s = .error (.refused (.malformed m)) →
      m.position ≤ s.length ∧ m.place = s.placeOf m.position ∧
      ∃ front left fault, s = front ++ left ∧ front.length = m.position ∧
        document .strict levels (withoutMark s) = .error fault ∧
          fault.site? = some (m.problem, left)) ∧
    (s.head? ≠ some byteOrderMark →
      parse levels (byteOrderMark :: s) = (parse levels s).mapError ReadError.behindMark) := by
  refine ⟨fun m h => ?_, parse_mark⟩
  obtain ⟨hblank, fault, left, hdocument, hsite⟩ := exists_site h
  obtain ⟨front, hs, hparse⟩ := parse_of_site hblank hdocument hsite
  rw [h] at hparse
  injection hparse with heq
  injection heq with heq
  injection heq with hm
  have hposition : front.length = m.position := by rw [hm]
  refine ⟨?_, ?_, front, left, fault, hs, hposition, hdocument, hsite⟩
  · rw [← hposition, hs, List.length_append]
    exact Nat.le_add_right _ _
  · rw [← hposition, hm]

/-- An array that is left open at the end of a second line. -/
theorem parse_position_open_array :
    ∃ m, parse 950 (Text.ofString "[1,\n2") = .error (.refused (.malformed m)) ∧
      m.position = 5 ∧ m.place = ⟨2, 2⟩ ∧ m.position ≤ (Text.ofString "[1,\n2").length ∧
      parse 950 (byteOrderMark :: Text.ofString "[1,\n2") =
        .error (.refused (.malformed m.behindMark)) := by
  have hread : (match parse 950 (Text.ofString "[1,\n2") with
      | .error (.refused (.malformed m)) => some (m.position, m.place)
      | _ => none) = some (5, ⟨2, 2⟩) := by
    decide +kernel
  split at hread
  · rename_i m hparse
    obtain ⟨hposition, hplace⟩ := Prod.mk.inj (Option.some.inj hread)
    obtain ⟨hbound, hmark⟩ := parse_position 950 (Text.ofString "[1,\n2")
    refine ⟨m, hparse, hposition, hplace, (hbound m hparse).1, ?_⟩
    rw [hmark (by decide), hparse]
    rfl
  · cases hread

end TextTidy.Json
