import TextTidy.Binary64.Shortest
import TextTidy.Proofs.Binary64.Nearest

/-!
# Decimals read back

Rounding a quotient depends on its value alone, so that zeros at the end of a decimal can be traded
for its exponent, and it gives back every magnitude of the format. The shortest decimal of a number
is one that was tried out, or the exact one; either way it reads back as the number.
-/

namespace TextTidy.Binary64

/-! ## Rounding depends on the ratio alone -/

theorem roundedQuotient_mul_right (n d : Nat) {k : Nat} (hk : 0 < k) :
    roundedQuotient (n * k) (d * k) = roundedQuotient n d := by
  have hbelow : 2 * (n % d * k) < d * k ↔ 2 * (n % d) < d := by
    rw [← Nat.mul_assoc]
    exact Nat.mul_lt_mul_right hk
  have habove : d * k < 2 * (n % d * k) ↔ d < 2 * (n % d) := by
    rw [← Nat.mul_assoc]
    exact Nat.mul_lt_mul_right hk
  unfold roundedQuotient
  simp only [Nat.mul_div_mul_right _ _ hk, Nat.mul_mod_mul_right, hbelow, habove]

theorem nearestRank_mul_right (n d : Nat) {k : Nat} (hk : 0 < k) :
    nearestRank (n * k) (d * k) = nearestRank n d := by
  have hscaled : n * k * unitsPerOne = n * unitsPerOne * k := by ring
  have hspread : ∀ spread : Nat, d * k * spread = d * spread * k := fun spread => by ring
  unfold nearestRank
  simp only [hscaled, Nat.mul_div_mul_right _ _ hk, hspread, roundedQuotient_mul_right _ _ hk]

/-- Equal quotients have the same nearest rank. -/
theorem nearestRank_congr {n d n' d' : Nat} (hd : 0 < d) (hd' : 0 < d') (h : n * d' = n' * d) :
    nearestRank n d = nearestRank n' d' := by
  calc nearestRank n d
      = nearestRank (n * d') (d * d') := (nearestRank_mul_right n d hd').symm
    _ = nearestRank (n' * d) (d' * d) := by rw [h, Nat.mul_comm d d']
    _ = nearestRank n' d' := nearestRank_mul_right n' d' hd

/-! ## Decimals -/

/-- Zeros at the end of the digits count as much in the exponent. -/
theorem ofDecimal_mul_pow (negative : Bool) (digits k : Nat) (exponent : Int) :
    ofDecimal negative (digits * 10 ^ k) exponent = ofDecimal negative digits (exponent + k) := by
  have hexponent : k + exponent.toNat + (-(exponent + k)).toNat =
      (exponent + k).toNat + (-exponent).toNat := by omega
  have hrank : nearestRank (digits * 10 ^ k * 10 ^ exponent.toNat) (10 ^ (-exponent).toNat) =
      nearestRank (digits * 10 ^ (exponent + k).toNat) (10 ^ (-(exponent + k)).toNat) := by
    refine nearestRank_congr (Nat.pow_pos (by decide)) (Nat.pow_pos (by decide)) ?_
    calc digits * 10 ^ k * 10 ^ exponent.toNat * 10 ^ (-(exponent + k)).toNat
        = digits * 10 ^ (k + exponent.toNat + (-(exponent + k)).toNat) := by ring
      _ = digits * 10 ^ ((exponent + k).toNat + (-exponent).toNat) := by rw [hexponent]
      _ = digits * 10 ^ (exponent + k).toNat * 10 ^ (-exponent).toNat := by ring
  rw [ofDecimal_eq_ofRank, ofDecimal_eq_ofRank, hrank]

/-- A finite number that a decimal reads as has the same magnitude with either sign. -/
theorem ofDecimal_sign {digits : Nat} {exponent : Int} {rank : Fin magnitudes}
    (h : ofDecimal false digits exponent = .finite false rank) (negative : Bool) :
    ofDecimal negative digits exponent = .finite negative rank :=
  ofDecimal_finite_iff.mpr ⟨rfl, (ofDecimal_finite_iff.mp h).2⟩

/-! ## The shortest decimal -/

/-- A magnitude written out in units of a power of ten reads back. -/
theorem ofDecimal_exact {rank e : Nat} (hunit : unitsPerOne = 2 ^ e) :
    ofDecimal false (units rank * Nat.pow 5 e) (-(e : Int)) = ofRank false rank := by
  have hfive : 0 < Nat.pow 5 e := Nat.pow_pos (by decide)
  have hten : 10 ^ e = unitsPerOne * Nat.pow 5 e := by
    rw [hunit, Nat.pow_eq, ← Nat.mul_pow]
  have hzero : (-(e : Int)).toNat = 0 := by omega
  have hplaces : (-(-(e : Int))).toNat = e := by omega
  rw [ofDecimal_eq_ofRank, hzero, hplaces, Nat.pow_zero, Nat.mul_one, hten,
    nearestRank_mul_right _ _ hfive, nearestRank_units]

theorem exactDecimal_readsAs (rank : Nat) : (exactDecimal rank).readsAs rank = true := by
  have hread : ∀ e, e = 1074 →
      Decimal.readsAs ⟨units rank * Nat.pow 5 e, -(e : Int)⟩ rank = true := by
    intro e he
    have hunit : unitsPerOne = 2 ^ e := by
      rw [he, unitsPerOne_eq]
    rw [Decimal.readsAs, beq_iff_eq]
    exact ofDecimal_exact hunit
  exact hread 1074 rfl

theorem readsAs_better {rank : Nat} {below above d : Decimal} {lowerIsNearer : Bool}
    (h : better? rank below above lowerIsNearer = some d) : d.readsAs rank = true := by
  unfold better? at h
  split at h
  · rename_i hbelow habove
    split at h
    · cases h
      exact hbelow
    · cases h
      exact habove
  · rename_i hbelow habove
    cases h
    exact hbelow
  · rename_i hbelow habove
    cases h
    exact habove
  · cases h

theorem readsAs_neighbour {rank count : Nat} {d : Decimal} (h : neighbour? rank count = some d) :
    d.readsAs rank = true := by
  unfold neighbour? at h
  exact readsAs_better h

theorem readsAs_shortest (rank : Fin magnitudes) : (shortest rank.val).readsAs rank.val = true := by
  unfold shortest
  split
  · rename_i hzero
    rw [hzero]
    decide
  · rename_i hrank
    cases htried : (List.range 17).findSome? fun i => neighbour? rank.val (i + 1) with
    | none => exact exactDecimal_readsAs rank.val
    | some d =>
      obtain ⟨i, -, hd⟩ := List.exists_of_findSome?_eq_some htried
      exact readsAs_neighbour hd

/-- The shortest decimal of a finite number, with its sign, reads back as the number. -/
theorem ofDecimal_shortest (negative : Bool) (rank : Fin magnitudes) :
    ofDecimal negative (shortest rank.val).digits (shortest rank.val).exponent =
      .finite negative rank := by
  have hread := readsAs_shortest rank
  unfold Decimal.readsAs at hread
  rw [beq_iff_eq, ofRank, dif_pos rank.isLt] at hread
  exact ofDecimal_sign hread negative

end TextTidy.Binary64
