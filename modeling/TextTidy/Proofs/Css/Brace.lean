import TextTidy.Css.Correction
import TextTidy.Proofs.Blank
import TextTidy.Proofs.Css.Character

/-!
# The balance of a text in parts

Only braces count for the balance of a text, and the balance of the front part is the state in which
the rest is read.
-/

namespace TextTidy.Css

/-- A text without braces. -/
def Braceless (s : Text) : Prop := ∀ c ∈ s, isBrace c = false

theorem braceless_cons {c : CodePoint} {s : Text} :
    Braceless (c :: s) ↔ isBrace c = false ∧ Braceless s := by
  simp [Braceless]

theorem braceless_append {s t : Text} : Braceless (s ++ t) ↔ Braceless s ∧ Braceless t := by
  simp [Braceless, or_imp, forall_and]

/-- Induction along a text from brace to brace. -/
theorem brace_induction {motive : Text → Prop} (last : ∀ s, Braceless s → motive s)
    (opening : ∀ s rest, Braceless s → motive rest → motive (s ++ .char '{' :: rest))
    (closing : ∀ s rest, Braceless s → motive rest → motive (s ++ .char '}' :: rest))
    (s : Text) : motive s := by
  refine Text.span_induction (fun c => !isBrace c) (fun run hrun => ?_)
    (fun run c rest hrun hc hrest => ?_) s
  · exact last run (by simpa [Braceless] using hrun)
  · have hfree : Braceless run := by simpa [Braceless] using hrun
    rcases isBrace_iff.mp (by simpa using hc) with rfl | rfl
    · exact opening run rest hfree hrest
    · exact closing run rest hfree hrest

/-! ## Reading on from a balance -/

theorem balanceFrom_cons_of_not_isBrace {c : CodePoint} (hc : isBrace c = false) (depth : Nat)
    (extra : Bool) (rest : Text) :
    balanceFrom depth extra (c :: rest) = balanceFrom depth extra rest := by
  rw [balanceFrom]
  · rintro rfl
    exact absurd hc (by decide)
  · rintro rfl
    exact absurd hc (by decide)

theorem balanceFrom_braceless {s : Text} (hs : Braceless s) (depth : Nat) (extra : Bool)
    (rest : Text) : balanceFrom depth extra (s ++ rest) = balanceFrom depth extra rest := by
  induction s with
  | nil => rfl
  | cons c s ih =>
    obtain ⟨hc, hs⟩ := braceless_cons.mp hs
    rw [List.cons_append, balanceFrom_cons_of_not_isBrace hc]
    exact ih hs

theorem balanceFrom_append (depth : Nat) (extra : Bool) (s rest : Text) :
    balanceFrom depth extra (s ++ rest) =
      balanceFrom (balanceFrom depth extra s).missing (balanceFrom depth extra s).extra rest := by
  induction s generalizing depth extra with
  | nil => rfl
  | cons c s ih =>
    by_cases hopen : c = .char '{'
    · subst hopen
      exact ih (depth + 1) extra
    · by_cases hclose : c = .char '}'
      · subst hclose
        cases depth with
        | zero => exact ih 0 true
        | succ depth => exact ih depth extra
      · have hc : isBrace c = false := by simp [isBrace, hopen, hclose]
        rw [List.cons_append, balanceFrom_cons_of_not_isBrace hc,
          balanceFrom_cons_of_not_isBrace hc]
        exact ih depth extra

/-- A stray closing brace is not made good by what follows it. -/
theorem balanceFrom_extra (depth : Nat) (s : Text) : (balanceFrom depth true s).extra = true := by
  induction s using brace_induction generalizing depth with
  | last s hs =>
    have := balanceFrom_braceless hs depth true []
    rw [List.append_nil] at this
    rw [this]
    rfl
  | opening s rest hs ih =>
    rw [balanceFrom_braceless hs]
    exact ih (depth + 1)
  | closing s rest hs ih =>
    rw [balanceFrom_braceless hs]
    cases depth with
    | zero => exact ih 0
    | succ depth => exact ih depth

theorem balanceFrom_replicate (n depth : Nat) (extra : Bool) :
    balanceFrom (depth + n) extra (List.replicate n (.char '}')) = ⟨depth, extra⟩ := by
  induction n with
  | zero => rfl
  | succ n ih => exact ih

/-! ## Passes that leave the braces alone -/

/-- The pass rewrites a text between its braces, without looking behind an opening one. -/
structure KeepsBraces (f : Text → Text) : Prop where
  /-- A text without braces stays one. -/
  braceless : ∀ s, Braceless s → Braceless (f s)
  /-- An opening brace separates what is rewritten. -/
  opening : ∀ s rest, Braceless s → f (s ++ .char '{' :: rest) = f s ++ .char '{' :: f rest
  /-- What is before a closing brace may depend on it. -/
  closing : ∀ s rest, Braceless s →
    ∃ t, Braceless t ∧ f (s ++ .char '}' :: rest) = t ++ .char '}' :: f rest

namespace KeepsBraces

variable {f : Text → Text}

theorem balanceFrom_eq (hf : KeepsBraces f) (depth : Nat) (extra : Bool) (s : Text) :
    balanceFrom depth extra (f s) = balanceFrom depth extra s := by
  induction s using brace_induction generalizing depth extra with
  | last s hs =>
    have h := balanceFrom_braceless hs depth extra []
    have hfs := balanceFrom_braceless (hf.braceless s hs) depth extra []
    rw [List.append_nil] at h hfs
    rw [h, hfs]
  | opening s rest hs ih =>
    rw [hf.opening s rest hs, balanceFrom_braceless hs,
      balanceFrom_braceless (hf.braceless s hs)]
    exact ih (depth + 1) extra
  | closing s rest hs ih =>
    obtain ⟨t, ht, hft⟩ := hf.closing s rest hs
    rw [hft, balanceFrom_braceless hs, balanceFrom_braceless ht]
    cases depth with
    | zero => exact ih 0 true
    | succ depth => exact ih depth extra

end KeepsBraces

/-! ## Closing the open blocks -/

theorem balanced_iff {s : Text} : (balance s).balanced = true ↔ balance s = ⟨0, false⟩ := by
  obtain ⟨missing, extra⟩ := balance s
  simp [Balance.balanced]

/-- A stray closing brace is left alone, and then so is all the rest. -/
theorem closeBlocks_of_extra {s : Text} (h : (balance s).extra = true) : closeBlocks s = s := by
  simp [closeBlocks, closable, h]

theorem closeBlocks_of_balanced {s : Text} (h : balance s = ⟨0, false⟩) : closeBlocks s = s := by
  simp [closeBlocks, closable, h]

/-- Without a stray closing brace as many are added as are missing, which may be none. -/
theorem closeBlocks_of_not_extra {s : Text} (h : (balance s).extra = false) :
    closeBlocks s = s ++ List.replicate (balance s).missing (.char '}') := by
  cases hmissing : (balance s).missing with
  | zero => simp [closeBlocks, closable, hmissing]
  | succ n => simp [closeBlocks, closable, h, hmissing]

theorem balance_closeBlocks {s : Text} (h : (balance s).extra = false) :
    balance (closeBlocks s) = ⟨0, false⟩ := by
  rw [closeBlocks_of_not_extra h, balance, balanceFrom_append, ← balance, h]
  have := balanceFrom_replicate (balance s).missing 0 false
  rwa [Nat.zero_add] at this

end TextTidy.Css
