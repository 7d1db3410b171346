import TextTidy.Proofs.Blank
import TextTidy.Text.Scan

/-!
# How a scan divides a text

A scan either passes over the whole text, or it stops at its first match and goes on behind it. Many
patterns never look beyond certain characters; a text may be cut behind such a character, and the
parts can be scanned on their own.
-/

namespace TextTidy.Pattern

variable {α : Type} {p : Pattern α} {write : α → Text} {stop : CodePoint → Bool}

/-! ## Single steps -/

theorem piecesFrom_of_none {before : Option CodePoint} {c : CodePoint} {rest : Text}
    (h : p before c rest = none) :
    piecesFrom p before 0 (c :: rest) = .plain c :: piecesFrom p (some c) 0 rest := by
  rw [piecesFrom, h]

theorem piecesFrom_of_some {before : Option CodePoint} {c : CodePoint} {rest : Text}
    {taken : Taken α} (h : p before c rest = some taken) :
    piecesFrom p before 0 (c :: rest) =
      .found taken.value :: piecesFrom p (some c) taken.more rest := by
  rw [piecesFrom, h]

/-- The characters that still belong to a match are dropped. -/
theorem piecesFrom_drop (p : Pattern α) (before : Option CodePoint) (skip : Nat) (s : Text) :
    piecesFrom p before skip s =
      piecesFrom p ((s.take skip).getLast?.or before) 0 (s.drop skip) := by
  by_cases h : skip ≤ s.length
  · have hlen : (s.take skip).length = skip := by simp [h]
    have := piecesFrom_skip p before (s.take skip) (s.drop skip)
    rwa [hlen, List.take_append_drop] at this
  · have hgone : ∀ (t : Text) (before : Option CodePoint) (n : Nat), t.length < n →
        piecesFrom p before n t = [] := by
      intro t
      induction t with
      | nil => intros; rfl
      | cons c t ih =>
        intro before n hn
        cases n with
        | zero => simp at hn
        | succ n => rw [piecesFrom]; exact ih _ _ (by simpa using hn)
    rw [hgone s before skip (by omega), List.drop_eq_nil_of_le (by omega), piecesFrom]

/-! ## The first match -/

/-- A scan finds nothing, and then the pattern matches at no place, or it finds a first match. -/
theorem piecesFrom_cases (p : Pattern α) (before : Option CodePoint) (s : Text) :
    (piecesFrom p before 0 s = s.map .plain ∧
      ∀ pre c rest, s = pre ++ c :: rest → p (pre.getLast?.or before) c rest = none) ∨
    ∃ pre c rest taken, s = pre ++ c :: rest ∧ p (pre.getLast?.or before) c rest = some taken ∧
      piecesFrom p before 0 s =
        pre.map .plain ++ .found taken.value :: piecesFrom p (some c) taken.more rest := by
  induction s generalizing before with
  | nil => exact Or.inl ⟨rfl, by intro pre c rest h; simp at h⟩
  | cons a s ih =>
    cases ha : p before a s with
    | some taken =>
      exact Or.inr ⟨[], a, s, taken, rfl, by simpa using ha, by simp [piecesFrom_of_some ha]⟩
    | none =>
      rw [piecesFrom_of_none ha]
      rcases ih (some a) with ⟨hplain, hnone⟩ | ⟨pre, c, rest, taken, rfl, htaken, hpieces⟩
      · refine Or.inl ⟨by rw [hplain, List.map_cons], fun pre c rest h => ?_⟩
        cases pre with
        | nil =>
          obtain ⟨rfl, rfl⟩ := List.cons.inj h
          exact ha
        | cons b pre =>
          obtain ⟨rfl, htail⟩ := List.cons.inj h
          rw [getLast?_cons_or]
          exact hnone pre c rest htail
      · refine Or.inr ⟨a :: pre, c, rest, taken, rfl, ?_, by rw [hpieces]; rfl⟩
        rw [getLast?_cons_or, htaken]

theorem filterMap_found_plain (s : Text) :
    (s.map (Piece.plain (α := α))).filterMap Piece.found? = [] := by
  simp [Piece.found?]

theorem flatMap_text_plain (write : α → Text) (s : Text) :
    (s.map Piece.plain).flatMap (Piece.text write) = s := by
  induction s with
  | nil => rfl
  | cons c s ih => rw [List.map_cons, List.flatMap_cons, ih]; rfl

/-- The scan of a text has a match exactly if the pattern matches somewhere. -/
theorem occursIn_eq_true_iff {s : Text} :
    occursIn p s = true ↔
      ∃ pre c rest taken, s = pre ++ c :: rest ∧ p pre.getLast? c rest = some taken := by
  rw [occursIn, findAll, pieces]
  rcases piecesFrom_cases p none s with ⟨hplain, hnone⟩ | ⟨pre, c, rest, taken, hs, htaken, hpieces⟩
  · rw [hplain, filterMap_found_plain]
    constructor
    · intro h
      simp at h
    · rintro ⟨pre, c, rest, taken, hs, htaken⟩
      have := hnone pre c rest hs
      rw [Option.or_none, htaken] at this
      cases this
  · rw [hpieces]
    constructor
    · intro _
      exact ⟨pre, c, rest, taken, hs, by rwa [Option.or_none] at htaken⟩
    · intro _
      rw [List.filterMap_append]
      simp [Piece.found?]

theorem occursIn_eq_false_iff {s : Text} :
    occursIn p s = false ↔ ∀ pre c rest, s = pre ++ c :: rest → p pre.getLast? c rest = none := by
  rw [← Bool.not_eq_true, occursIn_eq_true_iff]
  constructor
  · intro h pre c rest hs
    cases hp : p pre.getLast? c rest with
    | none => rfl
    | some taken => exact absurd ⟨pre, c, rest, taken, hs, hp⟩ h
  · rintro h ⟨pre, c, rest, taken, hs, htaken⟩
    rw [h pre c rest hs] at htaken
    cases htaken

/-- A text in which the pattern does not occur is written as it stands. -/
theorem replace_of_not_occursIn {s : Text} (h : occursIn p s = false) :
    replace p write s = s := by
  rw [replace, pieces]
  rcases piecesFrom_cases p none s with ⟨hplain, _⟩ | ⟨pre, c, rest, taken, hs, htaken, _⟩
  · rw [hplain, flatMap_text_plain]
  · rw [Option.or_none, occursIn_eq_false_iff.mp h pre c rest hs] at htaken
    cases htaken

/-- A text in which the pattern occurs is written as it stands up to the first match. -/
theorem exists_first_match {s : Text} (h : occursIn p s = true) (write : α → Text) :
    ∃ pre c rest taken, s = pre ++ c :: rest ∧ p pre.getLast? c rest = some taken ∧
      replace p write s = pre ++ (write taken.value ++
        (piecesFrom p (some c) taken.more rest).flatMap (Piece.text write)) := by
  rcases piecesFrom_cases p none s with ⟨_, hnone⟩ | ⟨pre, c, rest, taken, hs, htaken, hpieces⟩
  · obtain ⟨pre, c, rest, taken, hs, htaken⟩ := occursIn_eq_true_iff.mp h
    have := hnone pre c rest hs
    rw [Option.or_none, htaken] at this
    cases this
  · refine ⟨pre, c, rest, taken, hs, by rwa [Option.or_none] at htaken, ?_⟩
    rw [replace, pieces, hpieces, List.flatMap_append, flatMap_text_plain, List.flatMap_cons]
    rfl

/-! ## Induction along a scan -/

/-- A relation that single characters and single matches respect holds between a text and what it
is rewritten to. -/
theorem replace_relates {R : Text → Text → Prop} (nil : R [] [])
    (plain : ∀ c {s o}, R s o → R (c :: s) (c :: o))
    (found : ∀ before c rest taken {o}, p before c rest = some taken →
      R (rest.drop taken.more) o → R (c :: rest) (write taken.value ++ o)) (s : Text) :
    R s (replace p write s) := by
  have h : ∀ (n : Nat) (s : Text) (before : Option CodePoint), s.length ≤ n →
      R s ((piecesFrom p before 0 s).flatMap (Piece.text write)) := by
    intro n
    induction n with
    | zero =>
      intro s before hn
      rw [List.length_eq_zero_iff.mp (Nat.le_zero.mp hn)]
      exact nil
    | succ n ih =>
      intro s before hn
      cases s with
      | nil => exact nil
      | cons c rest =>
        have hrest : rest.length ≤ n := by simpa using hn
        cases hc : p before c rest with
        | none =>
          rw [piecesFrom_of_none hc]
          exact plain c (ih rest (some c) hrest)
        | some taken =>
          rw [piecesFrom_of_some hc, piecesFrom_drop]
          exact found before c rest taken hc (ih _ _ (by simp; omega))
  exact h s.length s none (Nat.le_refl _)

/-- What is written holds characters of the text, and of what matches are written as. -/
theorem mem_replace {s : Text} {x : CodePoint} (h : x ∈ replace p write s) :
    x ∈ s ∨ ∃ value, x ∈ write value := by
  revert h
  refine replace_relates (R := fun s o => x ∈ o → x ∈ s ∨ ∃ value, x ∈ write value)
    Or.inl ?_ ?_ s
  · intro c s o ih h
    rcases List.mem_cons.mp h with rfl | h
    · exact Or.inl List.mem_cons_self
    · exact (ih h).imp_left (List.mem_cons_of_mem c)
  · intro before c rest taken o _ ih h
    rcases List.mem_append.mp h with h | h
    · exact Or.inr ⟨taken.value, h⟩
    · exact (ih h).imp_left fun hin => List.mem_cons_of_mem c (List.mem_of_mem_drop hin)

/-! ## Erasing -/

theorem length_erasedFrom_le (p : Pattern α) (before : Option CodePoint) (skip : Nat) (s : Text) :
    ((piecesFrom p before skip s).flatMap (Piece.text fun _ => [])).length ≤ s.length := by
  induction s generalizing before skip with
  | nil => exact Nat.le_refl 0
  | cons c rest ih =>
    cases skip with
    | succ skip => exact Nat.le_succ_of_le (ih (some c) skip)
    | zero =>
      cases hc : p before c rest with
      | none =>
        rw [piecesFrom_of_none hc]
        exact Nat.succ_le_succ (ih (some c) 0)
      | some taken =>
        rw [piecesFrom_of_some hc]
        exact Nat.le_succ_of_le (ih (some c) taken.more)

/-- A text keeps what it is without the matches only if there are none: each takes a character. -/
theorem erase_eq_self_iff {s : Text} : replace p (fun _ => []) s = s ↔ occursIn p s = false := by
  constructor
  · intro h
    rw [← Bool.not_eq_true]
    intro hfound
    obtain ⟨pre, c, rest, taken, hs, -, hreplace⟩ :=
      exists_first_match hfound fun _ => ([] : Text)
    have hrest := length_erasedFrom_le p (some c) taken.more rest
    have hlen := congrArg List.length (hreplace.symm.trans (h.trans hs))
    simp only [List.nil_append, List.length_append, List.length_cons] at hlen
    omega
  · exact replace_of_not_occursIn

/-! ## Patterns that look at nothing before a match -/

theorem piecesFrom_before (hp : ∀ before c rest, p before c rest = p none c rest)
    (before : Option CodePoint) (s : Text) : piecesFrom p before 0 s = pieces p s := by
  cases s with
  | nil => rfl
  | cons c rest => rw [pieces, piecesFrom, piecesFrom, hp before]

theorem replace_cons_of_none (hp : ∀ before c rest, p before c rest = p none c rest)
    {c : CodePoint} {rest : Text} (h : p none c rest = none) :
    replace p write (c :: rest) = c :: replace p write rest := by
  rw [replace, pieces, piecesFrom_of_none h, piecesFrom_before hp]
  rfl

theorem replace_cons_of_some (hp : ∀ before c rest, p before c rest = p none c rest)
    {c : CodePoint} {rest : Text} {taken : Taken α} (h : p none c rest = some taken) :
    replace p write (c :: rest) =
      write taken.value ++ replace p write (rest.drop taken.more) := by
  rw [replace, pieces, piecesFrom_of_some h, piecesFrom_drop, piecesFrom_before hp]
  rfl

/-- A part of a text where no match begins is written as it stands. -/
theorem replace_append_of_none (hp : ∀ before c rest, p before c rest = p none c rest)
    {s rest : Text} (h : ∀ x c y, s = x ++ c :: y → p none c (y ++ rest) = none) :
    replace p write (s ++ rest) = s ++ replace p write rest := by
  induction s with
  | nil => rfl
  | cons c s ih =>
    rw [List.cons_append, replace_cons_of_none hp (h [] c s rfl), List.cons_append]
    refine congrArg (c :: ·) (ih fun x a y hs => ?_)
    exact h (c :: x) a y (by rw [hs]; rfl)

/-- A match at the start of a text is written first. -/
theorem replace_of_some (hp : ∀ before c rest, p before c rest = p none c rest) {s : Text}
    {c : CodePoint} {rest : Text} (hs : s = c :: rest) {taken : Taken α}
    (h : p none c rest = some taken) :
    replace p write s = write taken.value ++ replace p write (s.drop (taken.more + 1)) := by
  rw [hs, replace_cons_of_some hp h, List.drop_succ_cons]

theorem findAll_cons_of_none (hp : ∀ before c rest, p before c rest = p none c rest)
    {c : CodePoint} {rest : Text} (h : p none c rest = none) :
    findAll p (c :: rest) = findAll p rest := by
  rw [findAll, pieces, piecesFrom_of_none h, piecesFrom_before hp]
  rfl

theorem findAll_cons_of_some (hp : ∀ before c rest, p before c rest = p none c rest)
    {c : CodePoint} {rest : Text} {taken : Taken α} (h : p none c rest = some taken) :
    findAll p (c :: rest) = taken.value :: findAll p (rest.drop taken.more) := by
  rw [findAll, pieces, piecesFrom_of_some h, piecesFrom_drop, piecesFrom_before hp]
  rfl

/-! ## Gaps -/

theorem piecesFrom_of_fresh {before : Option CodePoint}
    (h : ∀ c rest, p before c rest = p none c rest) (s : Text) :
    piecesFrom p before 0 s = pieces p s := by
  cases s with
  | nil => rfl
  | cons c rest => rw [pieces, piecesFrom, piecesFrom, h]

/-- The pattern takes no notice of gaps before a match. -/
structure IgnoresGaps (p : Pattern α) : Prop where
  /-- No match begins at a blank. -/
  silent : ∀ before b rest, b.isBlank = true → p before b rest = none
  /-- Behind a blank a match begins as it does at the start of a text. -/
  fresh : ∀ b c rest, b.isBlank = true → p (some b) c rest = p none c rest

namespace IgnoresGaps

theorem pieces_gap (hp : IgnoresGaps p) {gap : Text} (hgap : Text.isBlank gap = true) (s : Text) :
    pieces p (gap ++ s) = gap.map .plain ++ pieces p s := by
  induction gap with
  | nil => rfl
  | cons b gap ih =>
    obtain ⟨hb, hgap⟩ := Text.isBlank_cons.mp hgap
    rw [List.cons_append, pieces, piecesFrom_of_none (hp.silent none b _ hb),
      piecesFrom_of_fresh (fun c rest => hp.fresh b c rest hb), ih hgap]
    rfl

theorem replace_gap (hp : IgnoresGaps p) {gap : Text} (hgap : Text.isBlank gap = true) (s : Text) :
    replace p write (gap ++ s) = gap ++ replace p write s := by
  rw [replace, hp.pieces_gap hgap, List.flatMap_append, flatMap_text_plain]
  rfl

end IgnoresGaps

/-! ## Patterns that do not look beyond certain characters -/

/-- The pattern neither takes a stop nor looks at what is behind one. -/
structure Halts (p : Pattern α) (stop : CodePoint → Bool) : Prop where
  /-- No match begins at a stop. -/
  silent : ∀ before d rest, stop d = true → p before d rest = none
  /-- A match does not depend on what is behind the next stop. -/
  blind : ∀ before c s d rest, stop d = true → p before c (s ++ d :: rest) = p before c (s ++ [d])
  /-- A match ends before the next stop. -/
  ends : ∀ before c s d taken, stop d = true → p before c (s ++ [d]) = some taken →
    taken.more ≤ s.length
  /-- Behind a stop a match begins as it does at the start of a text. -/
  fresh : ∀ d c rest, stop d = true → p (some d) c rest = p none c rest

namespace Halts

/-- Fewer stops are stops too. -/
theorem mono (hp : Halts p stop) {fewer : CodePoint → Bool}
    (h : ∀ {d}, fewer d = true → stop d = true) : Halts p fewer where
  silent before d rest hd := hp.silent before d rest (h hd)
  blind before c s d rest hd := hp.blind before c s d rest (h hd)
  ends before c s d taken hd := hp.ends before c s d taken (h hd)
  fresh d c rest hd := hp.fresh d c rest (h hd)

theorem piecesFrom_fresh (hp : Halts p stop) {d : CodePoint} (hd : stop d = true) (s : Text) :
    piecesFrom p (some d) 0 s = pieces p s :=
  piecesFrom_of_fresh (fun c rest => hp.fresh d c rest hd) s

theorem piecesFrom_append (hp : Halts p stop) {d : CodePoint} (hd : stop d = true) (rest : Text)
    (s : Text) (before : Option CodePoint) (skip : Nat) (hskip : skip ≤ s.length) :
    piecesFrom p before skip (s ++ d :: rest) =
      piecesFrom p before skip (s ++ [d]) ++ pieces p rest := by
  induction s generalizing before skip with
  | nil =>
    have hzero : skip = 0 := by simpa using hskip
    subst hzero
    rw [List.nil_append, List.nil_append, piecesFrom_of_none (hp.silent before d rest hd),
      piecesFrom_of_none (hp.silent before d [] hd), hp.piecesFrom_fresh hd]
    rfl
  | cons c s ih =>
    cases skip with
    | succ skip => exact ih (some c) skip (by simpa using hskip)
    | zero =>
      rw [List.cons_append, List.cons_append, piecesFrom, piecesFrom, hp.blind before c s d rest hd]
      cases hc : p before c (s ++ [d]) with
      | none => simp only [ih (some c) 0 (Nat.zero_le _), List.cons_append]
      | some taken =>
        simp only [ih (some c) taken.more (hp.ends before c s d taken hd hc), List.cons_append]

/-- A text may be cut behind a stop. -/
theorem pieces_append (hp : Halts p stop) {d : CodePoint} (hd : stop d = true) (s rest : Text) :
    pieces p (s ++ d :: rest) = pieces p (s ++ [d]) ++ pieces p rest :=
  hp.piecesFrom_append hd rest s none 0 (Nat.zero_le _)

theorem replace_append (hp : Halts p stop) {d : CodePoint} (hd : stop d = true) (s rest : Text) :
    replace p write (s ++ d :: rest) = replace p write (s ++ [d]) ++ replace p write rest := by
  rw [replace, hp.pieces_append hd, List.flatMap_append]
  rfl

theorem findAll_append (hp : Halts p stop) {d : CodePoint} (hd : stop d = true) (s rest : Text) :
    findAll p (s ++ d :: rest) = findAll p (s ++ [d]) ++ findAll p rest := by
  rw [findAll, hp.pieces_append hd, List.filterMap_append]
  rfl

theorem occursIn_append (hp : Halts p stop) {d : CodePoint} (hd : stop d = true) (s rest : Text) :
    occursIn p (s ++ d :: rest) = (occursIn p (s ++ [d]) || occursIn p rest) := by
  rw [occursIn, hp.findAll_append hd, occursIn, occursIn]
  cases findAll p (s ++ [d]) <;> simp

/-- A stop that the pattern cannot tell from the end of the text is a piece of its own. -/
theorem piecesFrom_concat_of_unseen (hp : Halts p stop) {d : CodePoint} (hd : stop d = true)
    (hunseen : ∀ before c s, p before c (s ++ [d]) = p before c s) (s : Text)
    (before : Option CodePoint) (skip : Nat) (hskip : skip ≤ s.length) :
    piecesFrom p before skip (s ++ [d]) = piecesFrom p before skip s ++ [.plain d] := by
  induction s generalizing before skip with
  | nil =>
    have hzero : skip = 0 := by simpa using hskip
    subst hzero
    exact piecesFrom_of_none (hp.silent before d [] hd)
  | cons c s ih =>
    cases skip with
    | succ skip => exact ih (some c) skip (by simpa using hskip)
    | zero =>
      cases hc : p before c (s ++ [d]) with
      | none =>
        rw [List.cons_append, piecesFrom_of_none hc, ih (some c) 0 (Nat.zero_le _),
          piecesFrom_of_none (hunseen before c s ▸ hc)]
        rfl
      | some taken =>
        rw [List.cons_append, piecesFrom_of_some hc,
          ih (some c) taken.more (hp.ends before c s d taken hd hc),
          piecesFrom_of_some (hunseen before c s ▸ hc)]
        rfl

theorem replace_append_of_unseen (hp : Halts p stop) {d : CodePoint} (hd : stop d = true)
    (hunseen : ∀ before c s, p before c (s ++ [d]) = p before c s) (s rest : Text) :
    replace p write (s ++ d :: rest) = replace p write s ++ d :: replace p write rest := by
  rw [hp.replace_append hd, replace, pieces,
    hp.piecesFrom_concat_of_unseen hd hunseen s none 0 (Nat.zero_le _), List.flatMap_append,
    List.append_assoc]
  rfl

theorem findAll_append_of_unseen (hp : Halts p stop) {d : CodePoint} (hd : stop d = true)
    (hunseen : ∀ before c s, p before c (s ++ [d]) = p before c s) (s rest : Text) :
    findAll p (s ++ d :: rest) = findAll p s ++ findAll p rest := by
  rw [hp.findAll_append hd, findAll, pieces,
    hp.piecesFrom_concat_of_unseen hd hunseen s none 0 (Nat.zero_le _), List.filterMap_append,
    List.append_assoc]
  rfl

end Halts

end TextTidy.Pattern
