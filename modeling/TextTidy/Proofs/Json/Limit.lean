import TextTidy.Proofs.Json.Place

/-!
# Texts beyond the bounds of the reader

The reader does not only accept and refuse. It gives up where it arrives at an array or an object
that nests too deeply, or at an integer of too many digits. Every text that leads it there makes it
give up, and nothing else does.
-/

namespace TextTidy.Json

open Grammar

/-- Whether the reader exceeds a bound at a value. -/
inductive Exceeds : Limit → Nat → Text → Prop
  | nesting {s : Text} (h : s.head? = some (.char '[') ∨ s.head? = some (.char '{')) :
      Exceeds .nesting 0 s
  | digits {levels : Nat} {s left : Text} {n : Number} (h : IsLongest n s left)
      (hlong : Text.maxIntegerDigits < n.integerLength) :
      Exceeds (.digits n.integerLength) levels s

/-- Whether a text leads a reader of some levels to a value that exceeds a bound. -/
def Overstrains (levels : Nat) (s : Text) (limit : Limit) : Prop :=
  ∃ gap body, withoutMark s = spacing gap ++ body ∧ Reached (Exceeds limit) levels body

variable {limit : Limit} {levels : Nat} {s : Text}

/-! ## Where the reader gives up -/

theorem Exceeds.opens (h : Exceeds limit levels s) : Opens s := by
  cases h with
  | nesting h =>
    cases s with
    | nil => simp at h
    | cons c rest => rcases h with h | h <;> cases h <;> exact opens_char (by decide) rest
  | digits h =>
    rw [h.here]
    exact opens_number _ _

theorem head_number (n : Number) (rest : Text) {c : Char} (hdigit : c.isDigit = false)
    (hminus : c ≠ '-') : (n.text ++ rest).head? ≠ some (.char c) := by
  rcases exists_first_number n rest with ⟨d, s, hs, hd⟩ | ⟨d, s, hs, -⟩
  · rw [hs]
    exact fun heq => ne_of_isDigit hd hdigit (Option.some.inj heq)
  · rw [hs]
    exact fun heq => hminus (by injection Option.some.inj heq with h; exact h.symm)

theorem Exceeds.error (h : Exceeds limit levels s) :
    bare (value .strict levels s) = .error (.beyond limit) := by
  cases h with
  | nesting h =>
    rw [value_zero h]
    rfl
  | digits h hlong =>
    rename_i left n
    have hread : numberLiteral? s = some (n.literal, left) :=
      numberLiteral?_eq_some_iff.mpr ⟨n, rfl, h⟩
    have hs := h.here
    subst hs
    rw [value_scalar (head_number n left rfl (by decide)) (head_number n left rfl (by decide)),
      scalar_number hread, if_pos hlong]

theorem scalar_eq_beyond (h : bare (scalar .strict s) = .error (.beyond limit)) (levels : Nat) :
    Exceeds limit levels s := by
  by_cases hquote : s.head? = some (.char '"')
  · cases s with
    | nil => cases hquote
    | cons c rest =>
      cases hquote
      rw [scalar_string] at h
      obtain ⟨flaw, left, hfault⟩ := charactersFrom_eq_error (error_of_map h)
      cases hfault
  · rw [scalar_other .strict hquote] at h
    split at h
    · cases h
    · split at h
      · cases h
      · split at h
        · cases h
        · rename_i literal left hnumber
          obtain ⟨n, rfl, hn⟩ := numberLiteral?_eq_some_iff.mp hnumber
          rw [literal_value] at h
          by_cases hlong : Text.maxIntegerDigits < n.integerLength
          · rw [if_pos hlong] at h
            cases h
            exact Exceeds.digits hn hlong
          · rw [if_neg hlong] at h
            cases h

theorem FailsHere.exceeds (h : FailsHere (.beyond limit) levels s) : Exceeds limit levels s := by
  cases h with
  | nesting hopen hfault =>
    cases hfault
    exact .nesting hopen
  | scalar _ _ hread => exact scalar_eq_beyond hread levels

/-! ## Texts -/

/-- The reader gives up only where a text leads it to a value that exceeds a bound. -/
theorem document_eq_beyond (h : document .strict levels s = .error (.beyond limit)) :
    ∃ gap body, s = spacing gap ++ body ∧ Reached (Exceeds limit) levels body := by
  obtain ⟨gap, body, hs, hreached⟩ := exists_of_document_error (fun _ _ => Fault.noConfusion) h
  exact ⟨gap, body, hs, hreached.mono fun _ _ => FailsHere.exceeds⟩

/-- Reading exceeds a bound exactly if the text leads to a value that does. -/
theorem parse_eq_beyond_iff :
    parse levels s = .error (.beyond limit) ↔ Overstrains levels s limit := by
  constructor
  · intro h
    cases hblank : (withoutMark s).isBlank with
    | true =>
      simp only [parse, hblank, if_true] at h
      cases h
    | false =>
      rw [parse_eq levels s hblank] at h
      split at h
      · cases h
      · cases h
      · cases h
      · rename_i hdocument
        cases h
        exact document_eq_beyond hdocument
  · rintro ⟨gap, body, hs, hreached⟩
    have hopens : ∀ levels s, Exceeds limit levels s → Opens s := fun _ _ => Exceeds.opens
    have hblank : (withoutMark s).isBlank = false := by
      rw [hs]
      exact (hreached.opens hopens).not_isBlank gap
    rw [parse_eq levels s hblank, hs,
      document_reached hopens (fun _ _ => Exceeds.error) gap hreached]

/-- A text has a value, is refused, or exceeds a bound. -/
theorem read_or_refused_iff :
    ((∃ v, parse levels s = .ok v) ∨ ∃ reason, parse levels s = .error (.refused reason)) ↔
      ∀ limit, ¬ Overstrains levels s limit := by
  simp only [← parse_eq_beyond_iff]
  cases parse levels s with
  | ok v => simp
  | error e => cases e <;> simp

theorem reportWith_ok_iff (accept : Value → Report) :
    (∃ report, reportWith levels accept s = .ok report) ↔
      ∀ limit, ¬ Overstrains levels s limit := by
  simp only [← parse_eq_beyond_iff, reportWith]
  cases parse levels s with
  | ok v => simp
  | error e => cases e <;> simp

/-- An integer of too many digits, alone in a text. -/
theorem overstrains_ones {count : Nat} (h : Text.maxIntegerDigits < count) :
    Overstrains levels (List.replicate count (.char '1')) (.digits count) := by
  obtain ⟨count, rfl⟩ := Nat.exists_eq_add_one_of_ne_zero (Nat.ne_zero_of_lt h)
  let one : Digit := ⟨'1', rfl⟩
  let n : Number := ⟨false, .other one (by decide) (List.replicate count one), none, none⟩
  have htext : n.text = List.replicate (count + 1) (.char '1') := by
    simp [n, one, Number.text, Number.signText, Whole.toList, digitsText, fractionText,
      exponentText, List.replicate_succ]
  have hlength : n.integerLength = count + 1 := by
    simp [n, Number.integerLength, Number.isInteger, Whole.toList]
  have hlongest : IsLongest n n.text [] :=
    ⟨(List.append_nil _).symm, fun m behind _ => Nat.zero_le _⟩
  refine ⟨[], n.text, htext.symm, Reached.here ?_⟩
  rw [← hlength]
  exact Exceeds.digits hlongest (by rwa [hlength])

end TextTidy.Json
