import TextTidy.Proofs.Css.Repair

/-!
# What a correction does outside the blocks

The text outside all blocks, selectors above all, comes in pieces: before, between and behind the
outermost blocks. The passes of a correction do not know about blocks. Each piece is rewritten as if
it stood alone, and is kept exactly if no pass finds anything in it.
-/

namespace TextTidy.Css

/-! ## Outside all blocks -/

/-- The characters outside all blocks when `depth` blocks are open, braces left out. -/
def outsideFrom : (depth : Nat) → Text → Text
  | _, [] => []
  | depth, .char '{' :: rest => outsideFrom (depth + 1) rest
  | depth, .char '}' :: rest => outsideFrom (depth - 1) rest
  | 0, c :: rest => c :: outsideFrom 0 rest
  | depth + 1, _ :: rest => outsideFrom (depth + 1) rest

/-- The characters of a text outside all blocks, in order. -/
def outside (s : Text) : Text := outsideFrom 0 s

/-- The pieces outside all blocks when `depth` blocks are open. A brace ends a piece. -/
def selectorsFrom : (depth : Nat) → Text → List Text
  | _, [] => [[]]
  | 0, .char '{' :: rest => [] :: selectorsFrom 1 rest
  | depth + 1, .char '{' :: rest => selectorsFrom (depth + 2) rest
  | 0, .char '}' :: rest => [] :: selectorsFrom 0 rest
  | depth + 1, .char '}' :: rest => selectorsFrom depth rest
  | 0, c :: rest => (selectorsFrom 0 rest).modifyHead (c :: ·)
  | depth + 1, _ :: rest => selectorsFrom (depth + 1) rest

/-- The pieces of a text outside all blocks, in order. -/
def selectors (s : Text) : List Text := selectorsFrom 0 s

theorem ne_char_of_not_isBrace {c : CodePoint} (hc : isBrace c = false) :
    c ≠ .char '{' ∧ c ≠ .char '}' := by
  constructor
  · rintro rfl
    exact absurd hc (by decide)
  · rintro rfl
    exact absurd hc (by decide)

theorem selectorsFrom_zero_cons {c : CodePoint} (hc : isBrace c = false) (rest : Text) :
    selectorsFrom 0 (c :: rest) = (selectorsFrom 0 rest).modifyHead (c :: ·) := by
  obtain ⟨hopen, hclose⟩ := ne_char_of_not_isBrace hc
  rw [selectorsFrom]
  · exact hopen
  · exact hclose

theorem selectorsFrom_succ_cons {c : CodePoint} (hc : isBrace c = false) (depth : Nat)
    (rest : Text) : selectorsFrom (depth + 1) (c :: rest) = selectorsFrom (depth + 1) rest := by
  obtain ⟨hopen, hclose⟩ := ne_char_of_not_isBrace hc
  rw [selectorsFrom]
  · exact hopen
  · exact hclose

theorem selectorsFrom_ne_nil (depth : Nat) (s : Text) : selectorsFrom depth s ≠ [] := by
  induction s generalizing depth with
  | nil => simp [selectorsFrom]
  | cons c s ih =>
    cases hc : isBrace c with
    | true =>
      rcases isBrace_iff.mp hc with rfl | rfl <;> cases depth <;> simp [selectorsFrom, ih]
    | false =>
      cases depth with
      | zero =>
        rw [selectorsFrom_zero_cons hc]
        simpa using ih 0
      | succ depth =>
        rw [selectorsFrom_succ_cons hc]
        exact ih (depth + 1)

/-- The pieces together are the characters outside all blocks. -/
theorem flatten_selectorsFrom (depth : Nat) (s : Text) :
    (selectorsFrom depth s).flatten = outsideFrom depth s := by
  induction s generalizing depth with
  | nil => simp [selectorsFrom, outsideFrom]
  | cons c s ih =>
    cases hc : isBrace c with
    | true =>
      rcases isBrace_iff.mp hc with rfl | rfl <;> cases depth <;>
        simp [selectorsFrom, outsideFrom, ih]
    | false =>
      obtain ⟨hopen, hclose⟩ := ne_char_of_not_isBrace hc
      cases depth with
      | zero =>
        have hout : outsideFrom 0 (c :: s) = c :: outsideFrom 0 s := by
          rw [outsideFrom]
          · exact hopen
          · exact hclose
        rw [selectorsFrom_zero_cons hc, hout, ← ih]
        cases hs : selectorsFrom 0 s with
        | nil => exact absurd hs (selectorsFrom_ne_nil 0 s)
        | cons first others => rfl
      | succ depth =>
        have hout : outsideFrom (depth + 1) (c :: s) = outsideFrom (depth + 1) s := by
          rw [outsideFrom]
          · exact hopen
          · exact hclose
        rw [selectorsFrom_succ_cons hc, hout, ih]

theorem selectorsFrom_zero_braceless {s : Text} (hs : Braceless s) (rest : Text) :
    selectorsFrom 0 (s ++ rest) = (selectorsFrom 0 rest).modifyHead (s ++ ·) := by
  induction s with
  | nil => cases h : selectorsFrom 0 rest <;> simp [h]
  | cons c s ih =>
    obtain ⟨hc, hs⟩ := braceless_cons.mp hs
    rw [List.cons_append, selectorsFrom_zero_cons hc, ih hs, List.modifyHead_modifyHead]
    rfl

theorem selectorsFrom_succ_braceless {s : Text} (hs : Braceless s) (depth : Nat) (rest : Text) :
    selectorsFrom (depth + 1) (s ++ rest) = selectorsFrom (depth + 1) rest := by
  induction s with
  | nil => rfl
  | cons c s ih =>
    obtain ⟨hc, hs⟩ := braceless_cons.mp hs
    rw [List.cons_append, selectorsFrom_succ_cons hc]
    exact ih hs

theorem selectorsFrom_zero_opening {s : Text} (hs : Braceless s) (rest : Text) :
    selectorsFrom 0 (s ++ .char '{' :: rest) = s :: selectorsFrom 1 rest := by
  rw [selectorsFrom_zero_braceless hs, selectorsFrom, List.modifyHead_cons, List.append_nil]

theorem selectorsFrom_zero_last {s : Text} (hs : Braceless s) : selectorsFrom 0 s = [s] := by
  have := selectorsFrom_zero_braceless hs []
  rwa [selectorsFrom, List.modifyHead_cons, List.append_nil] at this

theorem selectorsFrom_succ_last {s : Text} (hs : Braceless s) (depth : Nat) :
    selectorsFrom (depth + 1) s = [[]] := by
  have := selectorsFrom_succ_braceless hs depth []
  rwa [List.append_nil] at this

/-- A stray closing brace is where no block is open. -/
theorem exists_succ_of_closing {depth : Nat} {s rest : Text} (hs : Braceless s)
    (h : (balanceFrom depth false (s ++ .char '}' :: rest)).extra = false) :
    ∃ outer, depth = outer + 1 ∧ (balanceFrom outer false rest).extra = false := by
  rw [balanceFrom_braceless hs] at h
  cases depth with
  | zero =>
    rw [balanceFrom, balanceFrom_extra] at h
    cases h
  | succ outer => exact ⟨outer, rfl, h⟩

theorem selectorsFrom_replicate (depth : Nat) :
    selectorsFrom depth (List.replicate depth (.char '}')) = [[]] := by
  induction depth with
  | zero => rfl
  | succ depth ih => exact ih

/-- Closing blocks at the end adds no piece. -/
theorem selectorsFrom_close {depth : Nat} {s : Text}
    (h : (balanceFrom depth false s).extra = false) :
    selectorsFrom depth
        (s ++ List.replicate (balanceFrom depth false s).missing (.char '}')) =
      selectorsFrom depth s := by
  induction s using brace_induction generalizing depth with
  | last s hs =>
    have hbalance := balanceFrom_braceless hs depth false []
    rw [List.append_nil] at hbalance
    rw [hbalance]
    cases depth with
    | zero => exact congrArg (selectorsFrom 0) (List.append_nil s)
    | succ depth =>
      rw [selectorsFrom_succ_braceless hs, selectorsFrom_succ_last hs]
      exact selectorsFrom_replicate (depth + 1)
  | opening s rest hs ih =>
    rw [balanceFrom_braceless hs] at h ⊢
    rw [List.append_assoc, List.cons_append]
    cases depth with
    | zero =>
      rw [selectorsFrom_zero_opening hs, selectorsFrom_zero_opening hs]
      exact congrArg (s :: ·) (ih h)
    | succ depth =>
      rw [selectorsFrom_succ_braceless hs, selectorsFrom_succ_braceless hs]
      exact ih h
  | closing s rest hs ih =>
    obtain ⟨outer, rfl, hrest⟩ := exists_succ_of_closing hs h
    rw [balanceFrom_braceless hs, List.append_assoc, List.cons_append,
      selectorsFrom_succ_braceless hs, selectorsFrom_succ_braceless hs]
    exact ih hrest

/-! ## Passes that leave the braces alone -/

namespace KeepsBraces

variable {f : Text → Text}

/-- Without a stray closing brace every piece is rewritten as if it stood alone. -/
theorem selectorsFrom_eq_map (hf : KeepsBraces f) (hnil : f [] = []) {depth : Nat} {s : Text}
    (h : (balanceFrom depth false s).extra = false) :
    selectorsFrom depth (f s) = (selectorsFrom depth s).map f := by
  induction s using brace_induction generalizing depth with
  | last s hs =>
    cases depth with
    | zero => rw [selectorsFrom_zero_last hs, selectorsFrom_zero_last (hf.braceless s hs)]; rfl
    | succ depth =>
      rw [selectorsFrom_succ_last hs, selectorsFrom_succ_last (hf.braceless s hs)]
      simp [hnil]
  | opening s rest hs ih =>
    rw [balanceFrom_braceless hs] at h
    rw [hf.opening s rest hs]
    cases depth with
    | zero =>
      rw [selectorsFrom_zero_opening hs, selectorsFrom_zero_opening (hf.braceless s hs), ih h]
      rfl
    | succ depth =>
      rw [selectorsFrom_succ_braceless hs, selectorsFrom_succ_braceless (hf.braceless s hs)]
      exact ih h
  | closing s rest hs ih =>
    obtain ⟨outer, rfl, hrest⟩ := exists_succ_of_closing hs h
    obtain ⟨t, ht, hft⟩ := hf.closing s rest hs
    rw [hft, selectorsFrom_succ_braceless hs, selectorsFrom_succ_braceless ht]
    exact ih hrest

end KeepsBraces

/-! ## Corrected selectors -/

/-- A pass that shortens no piece keeps the pieces together exactly if it keeps each one. -/
theorem flatten_map_eq_iff {f : Text → Text} (hlen : ∀ piece, piece.length ≤ (f piece).length)
    (pieces : List Text) :
    (pieces.map f).flatten = pieces.flatten ↔ ∀ piece ∈ pieces, f piece = piece := by
  have hle : ∀ pieces : List Text, pieces.flatten.length ≤ (pieces.map f).flatten.length := by
    intro pieces
    induction pieces with
    | nil => exact Nat.le_refl 0
    | cons piece others ih =>
      have := hlen piece
      simp only [List.map_cons, List.flatten_cons, List.length_append]
      omega
  induction pieces with
  | nil => simp
  | cons piece others ih =>
    rw [List.map_cons, List.flatten_cons, List.flatten_cons, List.forall_mem_cons]
    constructor
    · intro h
      have hothers := hle others
      have hpiece := hlen piece
      have htotal := congrArg List.length h
      simp only [List.length_append] at htotal
      obtain ⟨hsame, hrest⟩ := List.append_inj h (by omega)
      exact ⟨hsame, ih.mp hrest⟩
    · rintro ⟨hsame, hrest⟩
      rw [hsame, ih.mpr hrest]

/-- The passes of a correction keep a piece exactly if they find nothing in it. -/
theorem piece_kept_iff (piece : Text) :
    correctSpelling (insertSemicolons piece) = piece ↔
      lacksSemicolon piece = false ∧ respelled piece = [] := by
  constructor
  · intro h
    have hended := length_insertSemicolons piece
    have hspelt := length_correctSpelling (insertSemicolons piece)
    rw [h] at hspelt
    have hkept : insertSemicolons piece = piece := by
      cases hlacks : lacksSemicolon piece with
      | false => exact insertSemicolons_eq_self_iff.mpr hlacks
      | true =>
        have := length_lt_insertSemicolons hlacks
        omega
    rw [hkept] at h
    exact ⟨insertSemicolons_eq_self_iff.mp hkept, correctSpelling_eq_self_iff.mp h⟩
  · rintro ⟨hlacks, hrespelled⟩
    rw [insertSemicolons_eq_self_iff.mpr hlacks, correctSpelling_eq_self_iff.mpr hrespelled]

/-- Each piece outside the blocks is corrected as if it stood alone. -/
theorem selectors_corrected {s : Text} (h : (balance s).extra = false) :
    selectors (corrected s) =
      (selectors s).map fun piece => correctSpelling (insertSemicolons piece) := by
  have hended : (balance (insertSemicolons s)).extra = false := by
    rw [balance_insertSemicolons, h]
  have hspelt : (balance (correctSpelling (insertSemicolons s))).extra = false := by
    rw [(correctSpelling_alike _).balance_eq, hended]
  calc selectors (corrected s)
      = selectors (correctSpelling (insertSemicolons s)) := by
        rw [corrected, closeBlocks_of_not_extra hspelt]
        exact selectorsFrom_close hspelt
    _ = (selectors (insertSemicolons s)).map correctSpelling :=
        correctSpelling_keepsBraces.selectorsFrom_eq_map rfl hended
    _ = ((selectors s).map insertSemicolons).map correctSpelling := by
        rw [selectors, insertSemicolons_keepsBraces.selectorsFrom_eq_map rfl h, selectors]
    _ = (selectors s).map fun piece => correctSpelling (insertSemicolons piece) := by
        rw [List.map_map]
        rfl

theorem outside_corrected {s : Text} (h : (balance s).extra = false) :
    outside (corrected s) = outside s ↔
      ∀ piece ∈ selectors s, lacksSemicolon piece = false ∧ respelled piece = [] := by
  have hlen : ∀ piece : Text,
      piece.length ≤ (correctSpelling (insertSemicolons piece)).length := by
    intro piece
    exact (length_insertSemicolons piece).trans (length_correctSpelling _)
  have hpieces : ∀ t, outside t = (selectors t).flatten := fun t =>
    (flatten_selectorsFrom 0 t).symm
  rw [hpieces, hpieces, selectors_corrected h, flatten_map_eq_iff hlen]
  simp only [piece_kept_iff]

/-- In a text without stray closing braces each piece outside the blocks is corrected as if it stood
alone, so what is outside the blocks is kept exactly if no piece of it lacks a semicolon or has a
misspelt word. The corrected text is the one that is compacted when a raw text has become valid by
its correction. -/
theorem selectors_kept_iff (s : Text) (h : (balance s).extra = false) :
    selectors (corrected s) =
        (selectors s).map (fun piece => correctSpelling (insertSemicolons piece)) ∧
      (outside (corrected s) = outside s ↔
        ∀ piece ∈ selectors s, lacksSemicolon piece = false ∧ respelled piece = []) ∧
      ∀ raw, stripComments raw = s → (tidy raw).kind = .correctedAndMinified →
        (tidy raw).output = compact (corrected s) := by
  refine ⟨selectors_corrected h, outside_corrected h, ?_⟩
  intro raw hraw hkind
  obtain ⟨-, -, houtput⟩ := exists_of_kind_corrected hkind
  rw [houtput, hraw]

/-- A selector with one pseudo-class is kept while its block is repaired. -/
theorem selectors_kept_one_pseudo_class :
    (balance (Text.ofString "a:b\x7bc:d e:f;\x7d")).extra = false ∧
      outside (corrected (Text.ofString "a:b\x7bc:d e:f;\x7d")) = Text.ofString "a:b" ∧
      (tidy (Text.ofString "a:b\x7bc:d e:f;\x7d")).output =
        compact (corrected (Text.ofString "a:b\x7bc:d e:f;\x7d")) := by
  have hextra : (balance (Text.ofString "a:b\x7bc:d e:f;\x7d")).extra = false := by decide
  obtain ⟨-, hkept, houtput⟩ :=
    selectors_kept_iff (Text.ofString "a:b\x7bc:d e:f;\x7d") hextra
  have hkind : (tidy (Text.ofString "a:b\x7bc:d e:f;\x7d")).kind = .correctedAndMinified := by
    decide +kernel
  exact ⟨hextra, (hkept.mpr (by decide)).trans (by decide), houtput _ (by decide) hkind⟩

/-- A selector with two pseudo-classes is cut by a semicolon, although there is nothing to repair in
its block. -/
theorem selector_cut_two_pseudo_classes :
    (balance (Text.ofString "a:b c:d\x7be:f;\x7d")).extra = false ∧
      outside (Text.ofString "a:b c:d\x7be:f;\x7d") = Text.ofString "a:b c:d" ∧
      outside (corrected (Text.ofString "a:b c:d\x7be:f;\x7d")) = Text.ofString "a:b; c:d" ∧
      (tidy (Text.ofString "a:b c:d\x7be:f;\x7d")).kind = .correctedAndMinified ∧
      (tidy (Text.ofString "a:b c:d\x7be:f;\x7d")).output = Text.ofString "a:b;c:d\x7be:f\x7d" := by
  decide +kernel

end TextTidy.Css
