import Mathlib.Algebra.BigOperators.Group.List.Basic
import Mathlib.Algebra.GroupWithZero.Nat
import Mathlib.Data.List.GetD
import Mathlib.Data.Prod.Lex
import Mathlib.Data.Set.Function
import Mathlib.Order.Interval.Set.Defs
import TextTidy.Proofs.Position

/-!
# Offsets and places

Every offset of a text has a line and a column. The offset is found again from them: it is the
length of the lines before, each with the line feed behind it, and of what stands before it on its
own line. So the offsets up to the end and the places on the lines are in one order.
-/

namespace TextTidy.Text

/-- The lines of a text: its parts between the line feeds. -/
def lines (s : Text) : List Text := splitOn (.char '\n') s

/-- A place on a line of a text: at one of its characters, or behind the last one. -/
structure Place.LiesIn (p : Place) (s : Text) : Prop where
  line_pos : 1 ≤ p.line
  line_le : p.line ≤ s.lines.length
  column_pos : 1 ≤ p.column
  column_le : p.column ≤ (s.lines.getD (p.line - 1) []).length + 1

/-- What places are ordered by: first the line, then the column. -/
def Place.key (p : Place) : ℕ ×ₗ ℕ := toLex (p.line, p.column)

/-- How long some lines are, each with the line feed behind it. -/
def extent (ls : List Text) : ℕ := (ls.map fun line => line.length + 1).sum

/-- The offset of a place. -/
def offsetOf (s : Text) (p : Place) : ℕ := extent (s.lines.take (p.line - 1)) + (p.column - 1)

variable {s front left first last : Text} {before others : List Text} {p q : Place} {n : ℕ}

/-! ## Lines -/

theorem lines_ne_nil (s : Text) : s.lines ≠ [] := splitOn_ne_nil _ s

theorem exists_last_line (s : Text) : ∃ before last, s.lines = before ++ [last] :=
  ⟨_, _, (List.dropLast_append_getLast (lines_ne_nil s)).symm⟩

theorem lines_newline (s : Text) : lines (.char '\n' :: s) = [] :: s.lines := rfl

theorem lines_cons {c : CodePoint} (hc : c ≠ .char '\n') (h : s.lines = first :: others) :
    lines (c :: s) = (c :: first) :: others := by
  rw [lines] at h
  rw [lines, splitOn, if_neg hc, h]

/-- The last line of one piece and the first line of the next one are one line. -/
theorem lines_append (hfront : front.lines = before ++ [last])
    (hleft : left.lines = first :: others) :
    (front ++ left).lines = before ++ (last ++ first) :: others := by
  -- the last line of `front` is generalized, since a character at the start can be a part of it
  induction front generalizing before last with
  | nil =>
    obtain ⟨rfl, hlast⟩ := List.append_inj' (show [] ++ [[]] = before ++ [last] from hfront) rfl
    cases hlast
    exact hleft
  | cons c front ih =>
    obtain ⟨before', last', hlines⟩ := exists_last_line front
    by_cases hc : c = .char '\n'
    · subst hc
      rw [lines_newline, hlines, ← List.cons_append] at hfront
      obtain ⟨rfl, hlast⟩ := List.append_inj' hfront rfl
      cases hlast
      rw [List.cons_append, lines_newline, ih hlines, List.cons_append]
    · cases before' with
      | nil =>
        rw [lines_cons hc hlines, ← List.nil_append [c :: last']] at hfront
        obtain ⟨rfl, hlast⟩ := List.append_inj' hfront rfl
        cases hlast
        exact lines_cons hc (ih hlines)
      | cons line before' =>
        rw [lines_cons hc (List.cons_append ▸ hlines), ← List.cons_append] at hfront
        obtain ⟨rfl, hlast⟩ := List.append_inj' hfront rfl
        cases hlast
        exact lines_cons hc (ih hlines)

/-! ## How long lines are -/

theorem extent_cons (line : Text) (ls : List Text) :
    extent (line :: ls) = line.length + 1 + extent ls := by
  rw [extent, List.map_cons, List.sum_cons]
  rfl

theorem extent_append (before others : List Text) :
    extent (before ++ others) = extent before + extent others := by
  rw [extent, List.map_append, List.sum_append]
  rfl

/-- Behind the last line no line feed stands, but its extent counts one. -/
theorem extent_lines (s : Text) : extent s.lines = s.length + 1 := by
  induction s with
  | nil => rfl
  | cons c s ih =>
    by_cases hc : c = .char '\n'
    · subst hc
      rw [lines_newline, extent_cons, ih, List.length_cons, List.length_nil]
      omega
    · obtain ⟨first, others, hlines⟩ := List.exists_cons_of_ne_nil (lines_ne_nil s)
      rw [hlines, extent_cons] at ih
      rw [lines_cons hc hlines, extent_cons, List.length_cons, List.length_cons]
      omega

theorem extent_take_succ (h : n < s.lines.length) :
    extent (s.lines.take (n + 1)) =
      extent (s.lines.take n) + (s.lines.getD n []).length + 1 := by
  rw [List.take_succ_eq_append_getElem h, extent_append, List.getD_eq_getElem _ _ h, extent_cons]
  rfl

theorem extent_take_mono (s : Text) : Monotone fun n => extent (s.lines.take n) := by
  refine monotone_nat_of_le_succ fun n => ?_
  by_cases h : n < s.lines.length
  · rw [extent_take_succ h]
    omega
  · rw [List.take_of_length_le (by omega), List.take_of_length_le (by omega)]

/-! ## Places -/

/-- A place is before the line behind its own. -/
theorem Place.LiesIn.offsetOf_lt (h : p.LiesIn s) :
    s.offsetOf p < extent (s.lines.take p.line) := by
  obtain ⟨hline, hlines, hcolumn, hcolumns⟩ := h
  have hsucc := extent_take_succ (s := s) (n := p.line - 1) (by omega)
  rw [Nat.sub_add_cancel hline] at hsucc
  rw [offsetOf, hsucc]
  omega

theorem Place.LiesIn.offsetOf_le (h : p.LiesIn s) : s.offsetOf p ≤ s.length := by
  have hmono := extent_take_mono s h.line_le
  simp only [List.take_length, extent_lines] at hmono
  exact Nat.le_of_lt_succ (Nat.lt_of_lt_of_le h.offsetOf_lt hmono)

/-- Offsets are in the order of their places. -/
theorem Place.LiesIn.offsetOf_lt_of_key (hp : p.LiesIn s) (h : p.key < q.key) :
    s.offsetOf p < s.offsetOf q := by
  rcases Prod.Lex.toLex_lt_toLex.mp h with hline | ⟨hline, hcolumn⟩
  · calc s.offsetOf p < extent (s.lines.take p.line) := hp.offsetOf_lt
      _ ≤ extent (s.lines.take (q.line - 1)) :=
        extent_take_mono s (Nat.le_sub_one_of_lt hline)
      _ ≤ s.offsetOf q := Nat.le_add_right _ _
  · have hpos := hp.column_pos
    simp only at hline hcolumn
    rw [offsetOf, offsetOf, hline]
    omega

theorem Place.key_injective : Function.Injective Place.key := by
  intro p q h
  cases p
  cases q
  simpa [Place.key] using h

/-! ## The place of an offset -/

theorem placeOf_eq_of_lines (h : lines (s.take n) = before ++ [last]) :
    s.placeOf n = ⟨before.length + 1, last.length + 1⟩ := by
  have hplace : s.placeOf n =
      ⟨(lines (s.take n)).length, ((lines (s.take n)).getLastD []).length + 1⟩ := rfl
  rw [hplace, h, List.length_append, List.getLastD_concat]
  rfl

/-- An offset cuts one line of the text in two. -/
theorem exists_line_at (h : n ≤ s.length) :
    ∃ before last behind others, s.lines = before ++ (last ++ behind) :: others ∧
      n = extent before + last.length ∧ s.placeOf n = ⟨before.length + 1, last.length + 1⟩ := by
  obtain ⟨before, last, hfront⟩ := exists_last_line (s.take n)
  obtain ⟨behind, others, hleft⟩ := List.exists_cons_of_ne_nil (lines_ne_nil (s.drop n))
  have hlines := lines_append hfront hleft
  rw [List.take_append_drop] at hlines
  have hextent := extent_lines (s.take n)
  rw [hfront, extent_append, extent_cons, List.length_take_of_le h] at hextent
  exact ⟨before, last, behind, others, hlines, (Nat.succ.inj hextent).symm,
    placeOf_eq_of_lines hfront⟩

theorem placeOf_liesIn (h : n ≤ s.length) : (s.placeOf n).LiesIn s := by
  obtain ⟨before, last, behind, others, hlines, -, hplace⟩ := exists_line_at h
  rw [hplace]
  exact ⟨by simp, by simp [hlines], by simp, by simp [hlines]⟩

theorem offsetOf_placeOf (h : n ≤ s.length) : s.offsetOf (s.placeOf n) = n := by
  obtain ⟨before, last, behind, others, hlines, hn, hplace⟩ := exists_line_at h
  rw [hplace, offsetOf, hlines, hn]
  simp

theorem placeOf_injOn (s : Text) : Set.InjOn (fun n : ℕ => s.placeOf n) (Set.Iic s.length) :=
  Set.LeftInvOn.injOn fun _ => offsetOf_placeOf

/-- The place of an offset is before another one exactly if the offset is. -/
theorem key_placeOf_strictMonoOn (s : Text) :
    StrictMonoOn (fun n : ℕ => (s.placeOf n).key) (Set.Iic s.length) := by
  intro m hm n hn hlt
  rcases lt_trichotomy (s.placeOf m).key (s.placeOf n).key with hbefore | heq | hbehind
  · exact hbefore
  · have heq := placeOf_injOn s hm hn (Place.key_injective heq)
    exact absurd heq (Nat.ne_of_lt hlt)
  · have hoffset := (placeOf_liesIn hn).offsetOf_lt_of_key hbehind
    rw [offsetOf_placeOf hn, offsetOf_placeOf hm] at hoffset
    exact absurd hoffset (Nat.lt_asymm hlt)

theorem placeOf_offsetOf (h : p.LiesIn s) : s.placeOf (s.offsetOf p) = p := by
  have hq := placeOf_liesIn h.offsetOf_le
  have hoffset := offsetOf_placeOf h.offsetOf_le
  -- both places have the same offset, so neither is before the other one
  rcases lt_trichotomy (s.placeOf (s.offsetOf p)).key p.key with hbefore | heq | hbehind
  · exact absurd hoffset (Nat.ne_of_lt (hq.offsetOf_lt_of_key hbefore))
  · exact Place.key_injective heq
  · exact absurd hoffset (Nat.ne_of_gt (h.offsetOf_lt_of_key hbehind))

theorem placeOf_congr {i j : ℤ} (h : s.upTo i = s.upTo j) : s.placeOf i = s.placeOf j := by
  rw [placeOf, h]
  rfl

theorem upTo_of_length_le {offset : ℤ} (h : s.length ≤ offset) : s.upTo offset = s := by
  obtain ⟨n, rfl⟩ := Int.eq_ofNat_of_zero_le (Int.le_trans (Int.natCast_nonneg _) h)
  exact List.take_of_length_le (Int.ofNat_le.mp h)

theorem upTo_of_neg {offset : ℤ} (h : offset < 0) :
    s.upTo offset = s.upTo (max 0 (s.length + offset)) := by
  obtain ⟨n, rfl⟩ := Int.eq_negSucc_of_lt_zero h
  have hmax : max 0 ((s.length : ℤ) + Int.negSucc n) = ((s.length - (n + 1) : ℕ) : ℤ) := by omega
  rw [hmax]
  rfl

/-- The offsets of a text, its end included, and the places on its lines belong to each other one to
one, and they are in the same order. An offset is found again as that of its place. Behind the end
there is no other place, and before the start an offset counts from the end. -/
theorem placeOf_identifies_offset (s : Text) :
    Set.BijOn (fun n : ℕ => s.placeOf n) (Set.Iic s.length) {p | p.LiesIn s} ∧
    StrictMonoOn (fun n : ℕ => (s.placeOf n).key) (Set.Iic s.length) ∧
    (∀ n : ℕ, n ≤ s.length → s.offsetOf (s.placeOf n) = n) ∧
    (∀ offset : ℤ, s.length ≤ offset → s.placeOf offset = s.placeOf s.length) ∧
    ∀ offset : ℤ, offset < 0 → s.placeOf offset = s.placeOf (max 0 (s.length + offset)) := by
  have honto : Set.SurjOn (fun n : ℕ => s.placeOf n) (Set.Iic s.length) {p | p.LiesIn s} :=
    fun p hp => ⟨s.offsetOf p, hp.offsetOf_le, placeOf_offsetOf hp⟩
  refine ⟨⟨fun n => placeOf_liesIn, placeOf_injOn s, honto⟩, key_placeOf_strictMonoOn s,
    fun n => offsetOf_placeOf, fun offset h => placeOf_congr ?_,
    fun offset h => placeOf_congr (upTo_of_neg h)⟩
  rw [upTo_of_length_le h, upTo_of_length_le (Int.le_refl _)]

/-- The second of three lines is empty. -/
theorem placeOf_identifies_offset_empty_line :
    let s := ofString "a\n\nbc"
    (⟨2, 1⟩ : Place).LiesIn s ∧ s.placeOf 2 = ⟨2, 1⟩ ∧ s.placeOf 3 = ⟨3, 1⟩ ∧
      s.offsetOf ⟨2, 1⟩ = 2 ∧ s.offsetOf ⟨3, 1⟩ = 3 ∧ (s.placeOf 2).key < (s.placeOf 3).key ∧
      s.placeOf 9 = ⟨3, 3⟩ ∧ s.placeOf (-3) = ⟨2, 1⟩ := by
  intro s
  obtain ⟨hbij, hmono, hoffset, hbeyond, hneg⟩ := placeOf_identifies_offset s
  have hsecond : s.placeOf (2 : ℕ) = ⟨2, 1⟩ := by decide
  have hthird : s.placeOf (3 : ℕ) = ⟨3, 1⟩ := by decide
  have hlast : s.placeOf s.length = ⟨3, 3⟩ := by decide
  have h2 : 2 ≤ s.length := by decide
  have h3 : 3 ≤ s.length := by decide
  refine ⟨?_, hsecond, hthird, ?_, ?_, hmono h2 h3 (by decide), ?_, ?_⟩
  · rw [← hsecond]
    exact hbij.mapsTo h2
  · rw [← hsecond]
    exact hoffset 2 h2
  · rw [← hthird]
    exact hoffset 3 h3
  · rw [hbeyond 9 (by decide), hlast]
  · rw [hneg (-3) (by decide)]
    exact hsecond

end TextTidy.Text
