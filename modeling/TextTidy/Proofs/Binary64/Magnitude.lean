import Mathlib.Algebra.Order.Field.Basic
import Mathlib.Algebra.Order.Field.Power
import Mathlib.Data.Nat.Prime.Basic
import Mathlib.Tactic.FieldSimp
import Mathlib.Tactic.Linarith
import TextTidy.Proofs.Binary64.Decimal

/-!
# Magnitudes and decimals in order

Magnitudes and decimals are compared as rational numbers. Rounding a decimal to a magnitude keeps
the order, so that whatever lies between a magnitude and a decimal that reads back as it reads back
too; and so does whatever is near enough to a magnitude.
-/

namespace TextTidy.Binary64

/-- The magnitude of a rank. -/
def magnitude (rank : Nat) : ℚ := units rank / unitsPerOne

/-- What a decimal is worth. -/
def Decimal.value (d : Decimal) : ℚ := d.digits * 10 ^ d.exponent

/-- The rank that a decimal is rounded to. -/
def Decimal.rank (d : Decimal) : Nat :=
  nearestRank (d.digits * 10 ^ d.exponent.toNat) (10 ^ (-d.exponent).toNat)

/-! ## Fractions -/

theorem power_pos (e : Int) : (0 : ℚ) < 10 ^ e := zpow_pos (by norm_num) e

theorem power_eq (e : Int) : (10 : ℚ) ^ e = (10 ^ e.toNat : Nat) / (10 ^ (-e).toNat : Nat) := by
  rcases Int.le_total 0 e with h | h
  · obtain ⟨n, rfl⟩ := Int.eq_ofNat_of_zero_le h
    have hzero : (-(n : Int)).toNat = 0 := by omega
    rw [hzero, Int.toNat_natCast]
    simp
  · obtain ⟨n, hn⟩ := Int.eq_ofNat_of_zero_le (Int.neg_nonneg_of_nonpos h)
    obtain rfl : e = -(n : Int) := by omega
    have hzero : (-(n : Int)).toNat = 0 := by omega
    rw [hzero, Int.neg_neg, Int.toNat_natCast]
    simp

theorem Decimal.value_eq (d : Decimal) :
    d.value =
      ((d.digits * 10 ^ d.exponent.toNat : Nat) : ℚ) / (10 ^ (-d.exponent).toNat : Nat) := by
  rw [Decimal.value, power_eq, Nat.cast_mul, mul_div_assoc]

theorem unitsPerOne_cast_pos : (0 : ℚ) < unitsPerOne := by exact_mod_cast unitsPerOne_pos

theorem magnitude_strictMono : StrictMono magnitude := by
  intro a b h
  have hunits : (units a : ℚ) < units b := by exact_mod_cast units_strictMono h
  exact div_lt_div_of_pos_right hunits unitsPerOne_cast_pos

theorem magnitude_pos {rank : Nat} (h : 0 < rank) : 0 < magnitude rank :=
  div_pos (by exact_mod_cast units_pos h) unitsPerOne_cast_pos

/-! ## Rounding keeps the order -/

theorem gap_eq (n : Nat) {d : Nat} (hd : 0 < d) (rank : Nat) :
    (gap n d rank : ℚ) = |(n : ℚ) / d - magnitude rank| * (d * unitsPerOne) := by
  have hd' : (0 : ℚ) < d := by exact_mod_cast hd
  have hone := unitsPerOne_cast_pos
  have hscaled : ((n : ℚ) / d - magnitude rank) * (d * unitsPerOne) =
      (n : ℚ) * unitsPerOne - units rank * d := by
    unfold magnitude
    generalize (unitsPerOne : ℚ) = one at hone ⊢
    field_simp
  rw [← abs_of_pos (mul_pos hd' hone), ← abs_mul, hscaled, gap, distance, Nat.cast_natAbs]
  push_cast
  rfl

/-- No magnitude is nearer to a quotient than that of the rank it is rounded to. -/
theorem abs_sub_nearestRank_le (n : Nat) {d : Nat} (hd : 0 < d) (other : Nat) :
    |(n : ℚ) / d - magnitude (nearestRank n d)| ≤ |(n : ℚ) / d - magnitude other| := by
  have hd' : (0 : ℚ) < d := by exact_mod_cast hd
  have hgap : (gap n d (nearestRank n d) : ℚ) ≤ gap n d other := by
    exact_mod_cast (roundsTo_nearestRank n hd).nearest other
  rw [gap_eq n hd, gap_eq n hd] at hgap
  exact le_of_mul_le_mul_right hgap (mul_pos hd' unitsPerOne_cast_pos)

theorem middle_le {x a b : ℚ} (hab : a < b) (h : |x - b| ≤ |x - a|) : a + b ≤ 2 * x := by
  rcases abs_cases (x - a) with ha | ha <;> rcases abs_cases (x - b) with hb | hb <;> linarith

theorem le_middle {x a b : ℚ} (hab : a < b) (h : |x - a| ≤ |x - b|) : 2 * x ≤ a + b := by
  rcases abs_cases (x - a) with ha | ha <;> rcases abs_cases (x - b) with hb | hb <;> linarith

theorem nearestRank_mono {n d n' d' : Nat} (hd : 0 < d) (hd' : 0 < d')
    (h : (n : ℚ) / d ≤ (n' : ℚ) / d') : nearestRank n d ≤ nearestRank n' d' := by
  by_contra hless
  have hmagnitude := magnitude_strictMono (Nat.lt_of_not_le hless)
  have hlower := middle_le hmagnitude (abs_sub_nearestRank_le n hd _)
  have hupper := le_middle hmagnitude (abs_sub_nearestRank_le n' hd' _)
  -- Both quotients are the middle of the two magnitudes, and equal ones are not rounded apart.
  have hsame : (n : ℚ) / d = (n' : ℚ) / d' := by linarith
  have hcross : n * d' = n' * d := by
    rw [div_eq_div_iff (by exact_mod_cast hd.ne') (by exact_mod_cast hd'.ne')] at hsame
    exact_mod_cast hsame
  exact hless (nearestRank_congr hd hd' hcross).le

namespace Decimal

theorem rank_mono {d d' : Decimal} (h : d.value ≤ d'.value) : d.rank ≤ d'.rank := by
  rw [value_eq, value_eq] at h
  exact nearestRank_mono (Nat.pow_pos (by decide)) (Nat.pow_pos (by decide)) h

theorem rank_le {d : Decimal} {rank : Nat} (h : d.value ≤ magnitude rank) : d.rank ≤ rank := by
  rw [value_eq, magnitude] at h
  calc d.rank
      ≤ nearestRank (units rank) unitsPerOne :=
        nearestRank_mono (Nat.pow_pos (by decide)) unitsPerOne_pos h
    _ = rank := nearestRank_units rank

theorem le_rank {d : Decimal} {rank : Nat} (h : magnitude rank ≤ d.value) : rank ≤ d.rank := by
  rw [value_eq, magnitude] at h
  calc rank
      = nearestRank (units rank) unitsPerOne := (nearestRank_units rank).symm
    _ ≤ d.rank := nearestRank_mono unitsPerOne_pos (Nat.pow_pos (by decide)) h

theorem readsAs_iff {d : Decimal} {rank : Nat} (h : rank < magnitudes) :
    d.readsAs rank = true ↔ d.rank = rank := by
  rw [readsAs, beq_iff_eq, ofRank_of_lt false h, ofDecimal_finite_iff,
    roundsTo_iff (Nat.pow_pos (by decide))]
  exact and_iff_right rfl

/-- What lies between a decimal that reads back and the magnitude reads back too. -/
theorem readsAs_of_between {d inner : Decimal} {rank : Nat} (hrank : rank < magnitudes)
    (h : d.readsAs rank = true)
    (hbetween : (d.value ≤ inner.value ∧ inner.value ≤ magnitude rank) ∨
      (magnitude rank ≤ inner.value ∧ inner.value ≤ d.value)) : inner.readsAs rank = true := by
  rw [readsAs_iff hrank] at h ⊢
  rcases hbetween with ⟨hd, hinner⟩ | ⟨hinner, hd⟩
  · exact Nat.le_antisymm (rank_le hinner) (h.symm.le.trans (rank_mono hd))
  · exact Nat.le_antisymm ((rank_mono hd).trans h.le) (le_rank hinner)

end Decimal

/-! ## What is near enough reads back -/

/-- The distance of another magnitude is at least the `2 ^ 53`th part of a magnitude. -/
theorem units_le_apart {rank other : Nat} (h : other ≠ rank) :
    units rank ≤ 2 ^ 53 * distance (units other) (units rank) := by
  rcases Nat.lt_or_gt_of_ne h with hbelow | habove
  · obtain ⟨before, rfl⟩ : ∃ before, rank = before + 1 := ⟨rank - 1, by omega⟩
    obtain ⟨b, m, hm, hunits, hnext⟩ := units_succ before
    have hother : units other ≤ units before :=
      units_strictMono.monotone (Nat.le_of_lt_succ hbelow)
    have hapart : 2 ^ b ≤ distance (units other) (units (before + 1)) := by
      rw [hnext, Nat.succ_mul, ← hunits]
      unfold distance
      omega
    calc units (before + 1)
        = (m + 1) * 2 ^ b := hnext
      _ ≤ 2 ^ 53 * 2 ^ b := Nat.mul_le_mul_right _ hm
      _ ≤ 2 ^ 53 * distance (units other) (units (before + 1)) := Nat.mul_le_mul_left _ hapart
  · obtain ⟨b, m, hm, hunits, hnext⟩ := units_succ rank
    have hother : units (rank + 1) ≤ units other := units_strictMono.monotone habove
    have hapart : 2 ^ b ≤ distance (units other) (units rank) := by
      rw [hnext, Nat.succ_mul, ← hunits] at hother
      unfold distance
      omega
    calc units rank
        = m * 2 ^ b := hunits
      _ ≤ 2 ^ 53 * 2 ^ b := Nat.mul_le_mul_right _ hm.le
      _ ≤ 2 ^ 53 * distance (units other) (units rank) := Nat.mul_le_mul_left _ hapart

theorem magnitude_le_apart {rank other : Nat} (h : other ≠ rank) :
    magnitude rank ≤ 2 ^ 53 * |magnitude other - magnitude rank| := by
  have hone := unitsPerOne_cast_pos
  have hunits : (units rank : ℚ) ≤ 2 ^ 53 * |(units other : ℚ) - units rank| := by
    have hcast : (units rank : ℚ) ≤ (2 ^ 53 * distance (units other) (units rank) : Nat) := by
      exact_mod_cast units_le_apart h
    rw [distance, Nat.cast_mul, Nat.cast_natAbs] at hcast
    push_cast at hcast
    exact hcast
  rw [magnitude, magnitude, ← sub_div, abs_div, abs_of_pos hone, ← mul_div_assoc]
  exact div_le_div_of_nonneg_right hunits hone.le

/-- A decimal that is off by less than the `2 ^ 54`th part of a magnitude reads back as it. -/
theorem Decimal.rank_eq_of_near {d : Decimal} {rank : Nat}
    (h : 2 ^ 54 * |d.value - magnitude rank| < magnitude rank) : d.rank = rank := by
  by_contra hother
  have hnearest : |d.value - magnitude d.rank| ≤ |d.value - magnitude rank| := by
    rw [value_eq]
    exact abs_sub_nearestRank_le _ (Nat.pow_pos (by decide)) rank
  have hapart := magnitude_le_apart hother
  have htriangle : |magnitude d.rank - magnitude rank| ≤
      |d.value - magnitude d.rank| + |d.value - magnitude rank| := by
    rw [abs_sub_comm d.value]
    exact abs_sub_le _ _ _
  linarith

/-! ## The place of the point -/

theorem power_le_magnitude_iff {e : Int} {rank : Nat} :
    (10 : ℚ) ^ e ≤ magnitude rank ↔
      10 ^ e.toNat * unitsPerOne ≤ units rank * 10 ^ (-e).toNat := by
  have hten : (0 : ℚ) < (10 ^ (-e).toNat : Nat) := by
    exact_mod_cast Nat.pow_pos (by decide)
  rw [power_eq, magnitude, div_le_div_iff₀ hten unitsPerOne_cast_pos]
  norm_cast

theorem magnitude_lt_power_iff {e : Int} {rank : Nat} :
    magnitude rank < (10 : ℚ) ^ e ↔
      units rank * 10 ^ (-e).toNat < 10 ^ e.toNat * unitsPerOne := by
  rw [← not_le, power_le_magnitude_iff, Nat.not_le]

/-- Below one, the digits of the reciprocal tell how many zeros follow the point. -/
theorem pointPlace_fraction {rank : Nat} (h : units rank / unitsPerOne = 0) :
    pointPlace rank = 1 - (digitCount (unitsPerOne / units rank) : Int) := by
  unfold pointPlace
  simp only [h, if_true]

theorem pointPlace_whole {rank : Nat} (h : units rank / unitsPerOne ≠ 0) :
    pointPlace rank = digitCount (units rank / unitsPerOne) := by
  unfold pointPlace
  simp only [h, if_false]

theorem power_pointPlace_le {rank : Nat} (h : 0 < rank) :
    (10 : ℚ) ^ (pointPlace rank - 1) ≤ magnitude rank := by
  rw [power_le_magnitude_iff]
  by_cases hwhole : units rank / unitsPerOne = 0
  · have hlast : (pointPlace rank - 1).toNat = 0 := by
      rw [pointPlace_fraction hwhole]
      omega
    have hplaces : (-(pointPlace rank - 1)).toNat = digitCount (unitsPerOne / units rank) := by
      rw [pointPlace_fraction hwhole]
      omega
    have hreciprocal := lt_pow_digitCount (unitsPerOne / units rank)
    rw [hlast, hplaces, Nat.pow_zero, Nat.one_mul, Nat.mul_comm]
    exact ((Nat.div_lt_iff_lt_mul (units_pos h)).mp hreciprocal).le
  · have hcount : 0 < digitCount (units rank / unitsPerOne) := Nat.length_toDigits_pos
    have hlast : (-(pointPlace rank - 1)).toNat = 0 := by
      rw [pointPlace_whole hwhole]
      omega
    have hplaces : (pointPlace rank - 1).toNat = digitCount (units rank / unitsPerOne) - 1 := by
      rw [pointPlace_whole hwhole]
      omega
    rw [hlast, hplaces, Nat.pow_zero, Nat.mul_one]
    exact (Nat.le_div_iff_mul_le unitsPerOne_pos).mp
      (pow_le_of_lt_digitCount hwhole (Nat.sub_lt hcount Nat.one_pos))

/-- No power of ten behind the point is a magnitude. -/
theorem units_mul_pow_ne {rank k : Nat} (hk : 0 < k) : units rank * 10 ^ k ≠ unitsPerOne := by
  intro heq
  have hfive : 5 ∣ 2 ^ 1074 := by
    rw [← unitsPerOne_eq, ← heq]
    exact Dvd.dvd.mul_left ((by decide : 5 ∣ 10).trans (dvd_pow_self 10 hk.ne')) _
  exact absurd (Nat.prime_five.dvd_of_dvd_pow hfive) (by decide)

theorem magnitude_lt_power_pointPlace {rank : Nat} (h : 0 < rank) :
    magnitude rank < (10 : ℚ) ^ pointPlace rank := by
  rw [magnitude_lt_power_iff]
  by_cases hwhole : units rank / unitsPerOne = 0
  · have hbelow : units rank < unitsPerOne := (Nat.div_eq_zero_iff_lt unitsPerOne_pos).mp hwhole
    have hreciprocal : unitsPerOne / units rank ≠ 0 :=
      (Nat.div_pos hbelow.le (units_pos h)).ne'
    have hcount : 0 < digitCount (unitsPerOne / units rank) := Nat.length_toDigits_pos
    have hlast : (pointPlace rank).toNat = 0 := by
      rw [pointPlace_fraction hwhole]
      omega
    obtain ⟨k, hk⟩ : ∃ k, digitCount (unitsPerOne / units rank) = k + 1 :=
      ⟨_, (Nat.sub_add_cancel hcount).symm⟩
    have hplaces : (-pointPlace rank).toNat = k := by
      rw [pointPlace_fraction hwhole]
      omega
    have hle : 10 ^ k ≤ unitsPerOne / units rank :=
      pow_le_of_lt_digitCount hreciprocal (by omega)
    have hproduct := (Nat.le_div_iff_mul_le (units_pos h)).mp hle
    rw [hlast, hplaces, Nat.pow_zero, Nat.one_mul]
    rcases Nat.eq_zero_or_pos k with hzero | hpos
    · rw [hzero, Nat.pow_zero, Nat.mul_one]
      exact hbelow
    · rw [Nat.mul_comm] at hproduct
      exact Nat.lt_of_le_of_ne hproduct (units_mul_pow_ne hpos)
  · have hlast : (-pointPlace rank).toNat = 0 := by
      rw [pointPlace_whole hwhole]
      omega
    have hplaces : (pointPlace rank).toNat = digitCount (units rank / unitsPerOne) := by
      rw [pointPlace_whole hwhole]
      omega
    rw [hlast, hplaces, Nat.pow_zero, Nat.mul_one]
    exact (Nat.div_lt_iff_lt_mul unitsPerOne_pos).mp (lt_pow_digitCount _)

end TextTidy.Binary64
