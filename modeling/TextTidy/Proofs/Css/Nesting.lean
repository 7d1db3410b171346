import Mathlib.Data.List.Induction
import Mathlib.Order.Bounds.Basic
import TextTidy.Proofs.Css.Brace

/-!
# What balance means

The scan for unmatched braces keeps a depth that never falls below zero, and forgets the stray
closing braces but for a flag. What it tells of a text is nevertheless exact. The text is read as a
walk, one step up for an opening brace and one step down for a closing one: the flag tells whether
the walk ever goes below its start, and the depth how far its end lies above its lowest point. A
balanced text is one whose braces alone form a well-nested word.
-/

namespace TextTidy.Css

/-! ## The lowest point -/

/-- How far a text climbs: its opening braces less its closing ones. -/
def height (s : Text) : Int := (s.count (.char '{') : Int) - (s.count (.char '}') : Int)

/-- The heights that are reached on the way through a text, both ends included. -/
def heights (s : Text) : Set Int := {h | ∃ k ≤ s.length, h = height (s.take k)}

theorem height_append (s t : Text) : height (s ++ t) = height s + height t := by
  simp only [height, List.count_append]
  omega

theorem heights_nil : heights [] = {0} := by
  ext h
  simp [heights, height]

theorem heights_concat (s : Text) (c : CodePoint) :
    heights (s ++ [c]) = insert (height (s ++ [c])) (heights s) := by
  ext h
  simp only [heights, Set.mem_insert_iff, Set.mem_ofPred_eq]
  constructor
  · rintro ⟨k, hk, rfl⟩
    by_cases hle : k ≤ s.length
    · exact Or.inr ⟨k, hle, by rw [List.take_append_of_le_length hle]⟩
    · rw [List.take_of_length_le (by simp; omega)]
      exact Or.inl rfl
  · rintro (rfl | ⟨k, hk, rfl⟩)
    · exact ⟨_, le_rfl, by rw [List.take_length]⟩
    · exact ⟨k, by simp; omega, by rw [List.take_append_of_le_length hk]⟩

theorem zero_mem_heights (s : Text) : 0 ∈ heights s := ⟨0, Nat.zero_le _, by simp [height]⟩

/-- What a balance tells of a text whose lowest point is `low`. -/
structure Measures (b : Balance) (s : Text) (low : Int) : Prop where
  /-- No place lies lower. -/
  least : IsLeast (heights s) low
  /-- The text goes below its start exactly if some closing brace has nothing to close. -/
  extra : b.extra = true ↔ low < 0
  /-- The blocks that are open at the end are those opened above the lowest point. -/
  missing : (b.missing : Int) = height s - low

/-- One character changes the depth as it changes the height, but not below zero. -/
theorem missing_char (depth : Nat) (extra : Bool) (c : CodePoint) :
    ((balanceFrom depth extra [c]).missing : Int) = max 0 (depth + height [c]) := by
  by_cases hopen : c = .char '{'
  · subst hopen
    show ((depth + 1 : Nat) : Int) = max 0 (depth + 1)
    omega
  · by_cases hclose : c = .char '}'
    · subst hclose
      cases depth with
      | zero => rfl
      | succ depth =>
        show (depth : Int) = max 0 (((depth + 1 : Nat) : Int) + -1)
        omega
    · have hlevel : height [c] = 0 := by simp [height, hopen, hclose]
      rw [balanceFrom_cons_of_not_isBrace (by simp [isBrace, hopen, hclose]), hlevel]
      show (depth : Int) = max 0 (depth + 0)
      omega

/-- A closing brace is stray where the depth would fall below zero. -/
theorem extra_char (depth : Nat) (extra : Bool) (c : CodePoint) :
    (balanceFrom depth extra [c]).extra = true ↔ extra = true ∨ (depth : Int) + height [c] < 0 := by
  by_cases hopen : c = .char '{'
  · subst hopen
    have hup : ¬ (depth : Int) + 1 < 0 := by omega
    exact (or_iff_left hup).symm
  · by_cases hclose : c = .char '}'
    · subst hclose
      cases depth with
      | zero => exact iff_of_true rfl (Or.inr (by decide))
      | succ depth =>
        have hdown : ¬ ((depth + 1 : Nat) : Int) + -1 < 0 := by omega
        exact (or_iff_left hdown).symm
    · have hlevel : height [c] = 0 := by simp [height, hopen, hclose]
      have hstay : ¬ (depth : Int) + 0 < 0 := by omega
      rw [balanceFrom_cons_of_not_isBrace (by simp [isBrace, hopen, hclose]), hlevel]
      exact (or_iff_left hstay).symm

/-- One more character moves the end of the walk, and perhaps its lowest point. -/
theorem Measures.concat {b : Balance} {s : Text} {low : Int} (h : Measures b s low)
    (c : CodePoint) :
    Measures (balanceFrom b.missing b.extra [c]) (s ++ [c]) (min (height (s ++ [c])) low) := by
  have hstart : low ≤ 0 := h.least.2 (zero_mem_heights s)
  have hmissing := h.missing
  refine ⟨?_, ?_, ?_⟩
  · rw [heights_concat]
    exact h.least.insert _
  · rw [extra_char, h.extra, height_append]
    omega
  · rw [missing_char, height_append]
    omega

theorem exists_measures (s : Text) : ∃ low, Measures (balance s) s low := by
  induction s using List.reverseRecOn with
  | nil =>
    refine ⟨0, ?_, by simp [balance, balanceFrom], by simp [balance, balanceFrom, height]⟩
    rw [heights_nil]
    exact isLeast_singleton
  | append_singleton s c ih =>
    obtain ⟨low, hlow⟩ := ih
    refine ⟨min (height (s ++ [c])) low, ?_⟩
    rw [balance, balanceFrom_append]
    exact hlow.concat c

/-! ## Well-nested words -/

/-- A word of braces that consists of blocks, one behind the other, with such words inside. -/
inductive WellNested : Text → Prop
  | nil : WellNested []
  | block {inside rest : Text} (hinside : WellNested inside) (hrest : WellNested rest) :
      WellNested (.char '{' :: (inside ++ .char '}' :: rest))

/-- A word that closes some blocks from outside: well-nested words with a closing brace between each
    two. -/
inductive Unwinds : Nat → Text → Prop
  | last {word : Text} (hword : WellNested word) : Unwinds 0 word
  | close {depth : Nat} {word rest : Text} (hword : WellNested word) (hrest : Unwinds depth rest) :
      Unwinds (depth + 1) (word ++ .char '}' :: rest)

/-- An opening brace belongs to the first of the closing ones. -/
theorem Unwinds.opening {depth : Nat} {word : Text} (h : Unwinds (depth + 1) word) :
    Unwinds depth (.char '{' :: word) := by
  cases h with
  | close hinside hrest =>
    cases hrest with
    | last hword => exact .last (.block hinside hword)
    | close hword hrest =>
      have h := Unwinds.close (.block hinside hword) hrest
      simpa using h

theorem balanceFrom_wellNested {word : Text} (h : WellNested word) (depth : Nat) (extra : Bool)
    (rest : Text) : balanceFrom depth extra (word ++ rest) = balanceFrom depth extra rest := by
  induction h generalizing depth rest with
  | nil => rfl
  | @block inside behind _ _ ihinside ihrest =>
    have htext : .char '{' :: (inside ++ .char '}' :: behind) ++ rest =
        .char '{' :: (inside ++ .char '}' :: (behind ++ rest)) := by
      simp
    rw [htext, balanceFrom, ihinside, balanceFrom, ihrest]

theorem unwinds_of_balanceFrom {word : Text} (hword : ∀ c ∈ word, isBrace c = true) {depth : Nat}
    (h : balanceFrom depth false word = ⟨0, false⟩) : Unwinds depth word := by
  induction word generalizing depth with
  | nil =>
    cases h
    exact .last .nil
  | cons c word ih =>
    obtain ⟨hc, hrest⟩ := List.forall_mem_cons.mp hword
    rcases isBrace_iff.mp hc with rfl | rfl
    · exact (ih hrest h).opening
    · cases depth with
      | zero =>
        have hstray := balanceFrom_extra 0 word
        rw [balanceFrom] at h
        rw [h] at hstray
        cases hstray
      | succ depth => exact .close .nil (ih hrest h)

/-- Only the braces of a text count. -/
theorem balance_filter (s : Text) : balance (s.filter isBrace) = balance s := by
  suffices h : ∀ depth extra,
      balanceFrom depth extra (s.filter isBrace) = balanceFrom depth extra s from h 0 false
  induction s with
  | nil => exact fun _ _ => rfl
  | cons c s ih =>
    intro depth extra
    cases hc : isBrace c with
    | false => rw [List.filter_cons_of_neg (by simp [hc]), balanceFrom_cons_of_not_isBrace hc, ih]
    | true =>
      rw [List.filter_cons_of_pos hc]
      rcases isBrace_iff.mp hc with rfl | rfl
      · exact ih (depth + 1) extra
      · cases depth with
        | zero => exact ih 0 true
        | succ depth => exact ih depth extra

theorem balanced_iff_wellNested (s : Text) :
    (balance s).balanced = true ↔ WellNested (s.filter isBrace) := by
  rw [balanced_iff, ← balance_filter]
  constructor
  · intro h
    have hunwinds := unwinds_of_balanceFrom (fun c hc => (List.mem_filter.mp hc).2) h
    cases hunwinds with
    | last hword => exact hword
  · intro h
    have hread := balanceFrom_wellNested h 0 false []
    rwa [List.append_nil] at hread

/-! ## Closing braces at the end -/

/-- Closing braces close what is open; if they are more, the others are stray. -/
theorem balanceFrom_closing (depth count : Nat) (extra : Bool) :
    balanceFrom depth extra (List.replicate count (.char '}')) =
      ⟨depth - count, extra || decide (depth < count)⟩ := by
  induction count generalizing depth extra with
  | zero => simp [balanceFrom]
  | succ count ih =>
    rw [List.replicate_succ]
    cases depth with
    | zero =>
      rw [balanceFrom, ih]
      simp
    | succ depth =>
      rw [balanceFrom, ih]
      simp

theorem balanced_append_closing_iff (s : Text) (count : Nat) :
    (balance (s ++ List.replicate count (.char '}'))).balanced = true ↔
      (balance s).extra = false ∧ count = (balance s).missing := by
  rw [balanced_iff, balance, balanceFrom_append, ← balance, balanceFrom_closing, Balance.mk.injEq,
    Bool.or_eq_false_iff, decide_eq_false_iff_not]
  constructor
  · rintro ⟨hopen, hextra, hfew⟩
    exact ⟨hextra, by omega⟩
  · rintro ⟨hextra, rfl⟩
    exact ⟨Nat.sub_self _, hextra, Nat.lt_irrefl _⟩

/-! ## Summary -/

/-- Some closing brace is stray exactly if the walk through the text goes below its start, and as
many closing braces are missing as the end lies above the lowest point. The text is balanced exactly
if its braces form a well-nested word, and is made so by closing braces at its end exactly if none
is stray and these are as many as are missing. -/
theorem balance_measures_nesting (s : Text) :
    (∃ low, IsLeast {h | ∃ k ≤ s.length, h = height (s.take k)} low ∧
      ((balance s).extra = true ↔ low < 0) ∧ ((balance s).missing : Int) = height s - low) ∧
    ((balance s).balanced = true ↔ WellNested (s.filter isBrace)) ∧
    ∀ count, (balance (s ++ List.replicate count (.char '}'))).balanced = true ↔
      (balance s).extra = false ∧ count = (balance s).missing := by
  obtain ⟨low, hleast, hextra, hmissing⟩ := exists_measures s
  exact ⟨⟨low, hleast, hextra, hmissing⟩, balanced_iff_wellNested s, balanced_append_closing_iff s⟩

end TextTidy.Css
