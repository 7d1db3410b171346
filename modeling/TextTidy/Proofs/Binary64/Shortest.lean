import Mathlib.Data.Nat.Cast.Order.Field
import TextTidy.Proofs.Binary64.Magnitude

/-!
# The shortest decimal that reads back

For each count of digits, no decimal lies between the two neighbours of a magnitude, so that one of
these reads back as soon as any decimal of as many digits does. The first count at which one does is
the least possible; it is at most seventeen, as rounding at the seventeenth digit moves a magnitude
by less than half the way to the next one.
-/

namespace TextTidy.Binary64

/-! ## The two neighbours -/

/-- The magnitude in units of the last of `count` digits, as a numerator. -/
def scaledUp (rank count : Nat) : Nat :=
  units rank * Nat.pow 10 (-(pointPlace rank - count)).toNat

/-- The magnitude in units of the last of `count` digits, as a denominator. -/
def scaledDown (rank count : Nat) : Nat :=
  unitsPerOne * Nat.pow 10 (pointPlace rank - count).toNat

/-- The greatest decimal of `count` digits that is no more than a magnitude. -/
def lower (rank count : Nat) : Decimal :=
  ⟨scaledUp rank count / scaledDown rank count, pointPlace rank - count⟩

/-- The decimal behind it. -/
def upper (rank count : Nat) : Decimal :=
  ⟨scaledUp rank count / scaledDown rank count + 1, pointPlace rank - count⟩

/-- The decimals of `count` digits next to a magnitude. -/
def IsNeighbour (rank count : Nat) (d : Decimal) : Prop :=
  d = lower rank count ∨ d = upper rank count

theorem scaledDown_pos (rank count : Nat) : 0 < scaledDown rank count :=
  Nat.mul_pos unitsPerOne_pos (Nat.pow_pos (by decide))

theorem magnitude_eq (rank count : Nat) :
    magnitude rank = (scaledUp rank count : ℚ) / scaledDown rank count *
      10 ^ (pointPlace rank - count) := by
  have hone := unitsPerOne_cast_pos.ne'
  rw [power_eq, magnitude, scaledUp, scaledDown, Nat.pow_eq, Nat.pow_eq]
  push_cast
  generalize (unitsPerOne : ℚ) = one at hone ⊢
  field_simp

theorem lower_value_le (rank count : Nat) : (lower rank count).value ≤ magnitude rank := by
  rw [magnitude_eq rank count]
  exact mul_le_mul_of_nonneg_right Nat.cast_div_le (power_pos _).le

theorem lt_upper_value (rank count : Nat) : magnitude rank < (upper rank count).value := by
  have hdown : (0 : ℚ) < scaledDown rank count := by exact_mod_cast scaledDown_pos rank count
  have hnext : scaledUp rank count <
      (scaledUp rank count / scaledDown rank count + 1) * scaledDown rank count := by
    rw [Nat.mul_comm]
    exact Nat.lt_mul_div_succ _ (scaledDown_pos rank count)
  have hquotient : (scaledUp rank count : ℚ) / scaledDown rank count <
      (scaledUp rank count / scaledDown rank count + 1 : Nat) := by
    rw [div_lt_iff₀ hdown]
    exact_mod_cast hnext
  rw [magnitude_eq rank count]
  exact mul_lt_mul_of_pos_right hquotient (power_pos _)

theorem upper_value (rank count : Nat) :
    (upper rank count).value = (lower rank count).value + 10 ^ (pointPlace rank - count) := by
  simp only [upper, lower, Decimal.value]
  push_cast
  ring

/-- No multiple of the last digit lies between the two neighbours. -/
theorem multiple_le_lower_or (rank count m : Nat) :
    m * (10 : ℚ) ^ (pointPlace rank - count) ≤ (lower rank count).value ∨
      (upper rank count).value ≤ m * (10 : ℚ) ^ (pointPlace rank - count) := by
  rcases Nat.lt_or_ge (lower rank count).digits m with hless | hmore
  · refine .inr (mul_le_mul_of_nonneg_right ?_ (power_pos _).le)
    exact_mod_cast hless
  · refine .inl (mul_le_mul_of_nonneg_right ?_ (power_pos _).le)
    exact_mod_cast hmore

section Neighbours

variable {rank count : Nat} (hrank : 0 < rank) (hcount : 0 < count)

include hrank

theorem lower_digits_lt (count : Nat) : (lower rank count).digits < 10 ^ count := by
  by_contra hmany
  have hdigits : (10 : ℚ) ^ (count : Int) ≤ (lower rank count).digits := by
    rw [zpow_natCast]
    exact_mod_cast Nat.le_of_not_lt hmany
  have hvalue : (10 : ℚ) ^ pointPlace rank ≤ (lower rank count).value := by
    calc (10 : ℚ) ^ pointPlace rank
        = 10 ^ (count : Int) * 10 ^ (pointPlace rank - count) := by
          rw [← zpow_add₀ (by norm_num)]
          congr 1
          omega
      _ ≤ (lower rank count).value := mul_le_mul_of_nonneg_right hdigits (power_pos _).le
  have hbelow := (lower_value_le rank count).trans_lt (magnitude_lt_power_pointPlace hrank)
  exact absurd (hbelow.trans_le hvalue) (lt_irrefl _)

theorem IsNeighbour.digits_le {d : Decimal} (h : IsNeighbour rank count d) :
    d.digits ≤ 10 ^ count := by
  rcases h with rfl | rfl
  · exact (lower_digits_lt hrank count).le
  · exact lower_digits_lt hrank count

include hcount

theorem power_pointPlace_le_lower :
    (10 : ℚ) ^ (pointPlace rank - 1) ≤ (lower rank count).value := by
  have hmultiple : (10 : ℚ) ^ (pointPlace rank - 1) =
      (10 ^ (count - 1) : Nat) * 10 ^ (pointPlace rank - count) := by
    have hexponent :
        pointPlace rank - 1 = ((count - 1 : Nat) : Int) + (pointPlace rank - count) := by
      omega
    rw [hexponent, zpow_add₀ (by norm_num), zpow_natCast]
    norm_cast
  have hreached := power_pointPlace_le hrank
  rw [hmultiple] at hreached ⊢
  refine (multiple_le_lower_or rank count _).resolve_right fun habove => ?_
  exact absurd ((lt_upper_value rank count).trans_le (habove.trans hreached)) (lt_irrefl _)

/-- No decimal of as many digits lies between the two neighbours: it is a multiple of their last
    digit, or too small as its own last digit is further behind. -/
theorem value_le_lower_or {d : Decimal} (hd : d.digits < 10 ^ count) :
    d.value ≤ (lower rank count).value ∨ (upper rank count).value ≤ d.value := by
  rcases lt_or_ge d.exponent (pointPlace rank - count) with hfine | hcoarse
  · refine .inl (le_trans ?_ (power_pointPlace_le_lower hrank hcount))
    have hdigits : (d.digits : ℚ) ≤ 10 ^ (count : Int) := by
      rw [zpow_natCast]
      exact_mod_cast hd.le
    calc d.value
        ≤ 10 ^ (count : Int) * 10 ^ d.exponent :=
          mul_le_mul_of_nonneg_right hdigits (power_pos _).le
      _ = 10 ^ (count + d.exponent) := (zpow_add₀ (by norm_num) _ _).symm
      _ ≤ 10 ^ (pointPlace rank - 1) := zpow_le_zpow_right₀ (by norm_num) (by omega)
  · obtain ⟨k, hk⟩ := Int.eq_ofNat_of_zero_le (Int.sub_nonneg_of_le hcoarse)
    have hvalue : d.value = (d.digits * 10 ^ k : Nat) * 10 ^ (pointPlace rank - count) := by
      have hexponent : d.exponent = (k : Int) + (pointPlace rank - count) := by omega
      rw [Decimal.value, hexponent, zpow_add₀ (by norm_num), zpow_natCast]
      push_cast
      ring
    rw [hvalue]
    exact multiple_le_lower_or rank count _

/-- If a decimal of as many digits reads back, then the neighbour on its side does, and is no
    farther. -/
theorem exists_neighbour {d : Decimal} (hfinite : rank < magnitudes) (hd : d.digits < 10 ^ count)
    (h : d.readsAs rank = true) :
    ∃ inner, IsNeighbour rank count inner ∧ inner.readsAs rank = true ∧
      |inner.value - magnitude rank| ≤ |d.value - magnitude rank| := by
  have hlower := lower_value_le rank count
  have hupper := (lt_upper_value rank count).le
  rcases value_le_lower_or hrank hcount hd with hbelow | habove
  · refine ⟨_, .inl rfl, Decimal.readsAs_of_between hfinite h (.inl ⟨hbelow, hlower⟩), ?_⟩
    rw [abs_of_nonpos (by linarith), abs_of_nonpos (by linarith)]
    linarith
  · refine ⟨_, .inr rfl, Decimal.readsAs_of_between hfinite h (.inr ⟨hupper, habove⟩), ?_⟩
    rw [abs_of_nonneg (by linarith), abs_of_nonneg (by linarith)]
    linarith

end Neighbours

/-! ## The nearer neighbour -/

theorem abs_roundedQuotient_sub_le (n : Nat) {d : Nat} (hd : 0 < d) :
    |(roundedQuotient n d : ℚ) - n / d| ≤ 1 / 2 := by
  have hd' : (0 : ℚ) < d := by exact_mod_cast hd
  have hhalf : ((2 * distance n (roundedQuotient n d * d) : Nat) : ℚ) ≤ d := by
    exact_mod_cast (roundedQuotient_half n hd).1
  rw [distance, Nat.cast_mul, Nat.cast_natAbs] at hhalf
  push_cast at hhalf
  have hscaled : (roundedQuotient n d : ℚ) - n / d = -(n - roundedQuotient n d * d) / d := by
    field_simp
    ring
  rw [hscaled, abs_div, abs_neg, abs_of_pos hd', div_le_iff₀ hd']
  linarith

/-- The magnitude rounded to a multiple of the last digit. -/
def rounded (rank count : Nat) : Decimal :=
  ⟨roundedQuotient (scaledUp rank count) (scaledDown rank count), pointPlace rank - count⟩

theorem abs_rounded_le (rank count : Nat) :
    |(rounded rank count).value - magnitude rank| ≤ 10 ^ (pointPlace rank - count) / 2 := by
  have hpos := power_pos (pointPlace rank - count)
  have hquotient := abs_roundedQuotient_sub_le (scaledUp rank count) (scaledDown_pos rank count)
  rw [magnitude_eq rank count]
  simp only [Decimal.value, rounded]
  generalize (scaledUp rank count : ℚ) / scaledDown rank count = exact at *
  rw [← sub_mul, abs_mul, abs_of_pos hpos, ← one_div_mul_eq_div]
  exact mul_le_mul_of_nonneg_right hquotient hpos.le

/-- Rounding takes the lower neighbour where it says so, and else the upper one. -/
theorem rounded_eq (rank count : Nat) :
    rounded rank count =
      if roundedQuotient (scaledUp rank count) (scaledDown rank count) ==
          scaledUp rank count / scaledDown rank count
      then lower rank count else upper rank count := by
  have hpos := scaledDown_pos rank count
  have hlow : scaledUp rank count / scaledDown rank count ≤
      roundedQuotient (scaledUp rank count) (scaledDown rank count) :=
    le_roundedQuotient hpos (Nat.div_mul_le_self _ _)
  have hhigh : roundedQuotient (scaledUp rank count) (scaledDown rank count) ≤
      scaledUp rank count / scaledDown rank count + 1 := by
    refine roundedQuotient_le hpos ?_
    rw [Nat.mul_comm]
    exact Nat.lt_mul_div_succ _ hpos
  split
  · rename_i heq
    rw [rounded, lower, beq_iff_eq.mp heq]
  · rename_i hne
    have hup : roundedQuotient (scaledUp rank count) (scaledDown rank count) =
        scaledUp rank count / scaledDown rank count + 1 := by
      rw [beq_iff_eq] at hne
      omega
    rw [rounded, upper, hup]

theorem isNeighbour_rounded (rank count : Nat) : IsNeighbour rank count (rounded rank count) := by
  rw [rounded_eq]
  split
  · exact .inl rfl
  · exact .inr rfl

/-- The neighbour that rounding takes is no farther than the other one. -/
theorem rounded_nearer {rank count : Nat} {d : Decimal} (h : IsNeighbour rank count d) :
    |(rounded rank count).value - magnitude rank| ≤ |d.value - magnitude rank| := by
  have hwithin := abs_rounded_le rank count
  have hstep := upper_value rank count
  have hlower : |(lower rank count).value - magnitude rank| =
      magnitude rank - (lower rank count).value := by
    rw [abs_sub_comm]
    exact abs_of_nonneg (sub_nonneg.mpr (lower_value_le rank count))
  have hupper : |(upper rank count).value - magnitude rank| =
      (upper rank count).value - magnitude rank :=
    abs_of_pos (sub_pos.mpr (lt_upper_value rank count))
  rcases isNeighbour_rounded rank count with heq | heq <;> rw [heq] at hwithin ⊢ <;>
    rcases h with rfl | rfl <;> linarith

/-! ## The better neighbour -/

theorem neighbour?_eq (rank count : Nat) :
    neighbour? rank count =
      better? rank (lower rank count) (upper rank count)
        (roundedQuotient (scaledUp rank count) (scaledDown rank count) ==
          scaledUp rank count / scaledDown rank count) := rfl

/-- If there is no better neighbour, then none of the two reads back. -/
theorem neighbour?_none {rank count : Nat} {d : Decimal} (h : neighbour? rank count = none)
    (hd : IsNeighbour rank count d) : d.readsAs rank = false := by
  rw [neighbour?_eq, better?] at h
  split at h
  · cases h
  · cases h
  · cases h
  · rename_i hlower hupper
    rcases hd with rfl | rfl
    · exact hlower
    · exact hupper

/-- The better neighbour is the nearest one of the two that read back. -/
theorem neighbour?_some {rank count : Nat} {d : Decimal} (h : neighbour? rank count = some d) :
    IsNeighbour rank count d ∧ ∀ other, IsNeighbour rank count other →
      other.readsAs rank = true → |d.value - magnitude rank| ≤ |other.value - magnitude rank| := by
  rw [neighbour?_eq, better?] at h
  split at h
  · rw [← rounded_eq] at h
    obtain rfl := Option.some.inj h
    exact ⟨isNeighbour_rounded rank count, fun other hother _ => rounded_nearer hother⟩
  · rename_i hlower hupper
    cases h
    refine ⟨.inl rfl, ?_⟩
    rintro other (rfl | rfl) hother
    · exact le_rfl
    · rw [hupper] at hother
      cases hother
  · rename_i hlower hupper
    cases h
    refine ⟨.inr rfl, ?_⟩
    rintro other (rfl | rfl) hother
    · rw [hlower] at hother
      cases hother
    · exact le_rfl
  · cases h

/-- Rounding at the seventeenth digit moves a magnitude by less than its `2 ^ 54`th part. -/
theorem rounded_readsAs {rank : Nat} (hrank : 0 < rank) (hfinite : rank < magnitudes) :
    (rounded rank 17).readsAs rank = true := by
  have hwithin := abs_rounded_le rank 17
  have hreached := power_pointPlace_le hrank
  have hpos := magnitude_pos hrank
  have hplaces : (10 : ℚ) ^ (pointPlace rank - 1) =
      10 ^ 16 * 10 ^ (pointPlace rank - (17 : Nat)) := by
    have hexponent : pointPlace rank - 1 = (16 : Nat) + (pointPlace rank - (17 : Nat)) := by omega
    rw [hexponent, zpow_add₀ (by norm_num), zpow_natCast]
  rw [Decimal.readsAs_iff hfinite]
  refine Decimal.rank_eq_of_near ?_
  rw [hplaces] at hreached
  generalize (10 : ℚ) ^ (pointPlace rank - (17 : Nat)) = step at *
  linarith

/-! ## Significant digits -/

theorem toDigits_power (k : Nat) : Nat.toDigits 10 (10 ^ k) = '1' :: List.replicate k '0' := by
  induction k with
  | zero => rfl
  | succ k ih =>
    have happend : Nat.toDigits 10 (10 ^ k) ++ Nat.toDigits 10 0 =
        Nat.toDigits 10 (10 * 10 ^ k + 0) :=
      Nat.toDigits_append_toDigits (by decide) (Nat.pow_pos (by decide)) (by decide)
    rw [Nat.pow_succ, Nat.mul_comm, ← Nat.add_zero (10 * 10 ^ k), ← happend, ih, List.cons_append,
      List.replicate_succ']
    rfl

/-- A power of ten has one significant digit, and a smaller number no more than its digits. -/
theorem Decimal.length_significant_le {d : Decimal} {count : Nat} (hcount : 0 < count)
    (h : d.digits ≤ 10 ^ count) : d.significant.1.length ≤ count := by
  have hkept :
      ((Nat.toDigits 10 d.digits).reverse.dropWhile (· == '0')).reverse.length ≤ count := by
    rw [List.length_reverse]
    rcases Nat.lt_or_eq_of_le h with hless | hpower
    · calc ((Nat.toDigits 10 d.digits).reverse.dropWhile (· == '0')).length
          ≤ (Nat.toDigits 10 d.digits).reverse.length := (List.dropWhile_sublist _).length_le
        _ = digitCount d.digits := List.length_reverse
        _ ≤ count := (digitCount_le_iff hcount).mpr hless
    · have hzeros : (Nat.toDigits 10 d.digits).reverse.dropWhile (· == '0') = ['1'] := by
        rw [hpower, toDigits_power, List.reverse_cons, List.reverse_replicate,
          List.dropWhile_append_of_pos (by simp)]
        rfl
      rw [hzeros]
      exact hcount
  unfold Decimal.significant
  simp only
  split
  · exact hcount
  · exact hkept

/-! ## The shortest decimal -/

/-- A decimal is the shortest one for a rank: it reads back, no decimal that reads back has fewer
    digits, and none with as many is nearer. -/
structure IsShortest (rank : Nat) (d : Decimal) : Prop where
  readsAs : d.readsAs rank = true
  fewest : ∀ other : Decimal, other.readsAs rank = true →
    d.significant.1.length ≤ digitCount other.digits
  nearest : ∀ other : Decimal, other.readsAs rank = true →
    digitCount other.digits ≤ d.significant.1.length →
      |d.value - magnitude rank| ≤ |other.value - magnitude rank|

theorem findSome?_range {α : Type} {f : Nat → Option α} {n : Nat} {b : α}
    (h : (List.range n).findSome? f = some b) :
    ∃ i < n, f i = some b ∧ ∀ j < i, f j = none := by
  obtain ⟨before, i, behind, hrange, hi, hbefore⟩ := List.findSome?_eq_some_iff.mp h
  have hmem : ∀ j, j ∈ before ++ i :: behind ↔ j < n := by
    intro j
    rw [← hrange, List.mem_range]
  have hordered : (before ++ i :: behind).Pairwise (· < ·) := by
    rw [← hrange]
    exact List.pairwise_lt_range
  have hin : i < n := (hmem i).mp (by simp)
  refine ⟨i, hin, hi, fun j hj => hbefore j ?_⟩
  rcases List.mem_append.mp ((hmem j).mpr (hj.trans hin)) with hearly | hlate
  · exact hearly
  · rcases List.mem_cons.mp hlate with hsame | hbehind
    · exact absurd hsame hj.ne
    · have hlater := List.rel_of_pairwise_cons (List.pairwise_append.mp hordered).2.1 hbehind
      exact absurd hlater hj.asymm

section Shortest

variable {rank : Nat} (hrank : 0 < rank) (hfinite : rank < magnitudes)

include hrank hfinite

/-- The search ends at the first count of digits with a neighbour that reads back. -/
theorem exists_shortest_count :
    ∃ count, 0 < count ∧ count ≤ 17 ∧ neighbour? rank count = some (shortest rank) ∧
      ∀ fewer, 0 < fewer → fewer < count → neighbour? rank fewer = none := by
  cases hfound : (List.range 17).findSome? fun i => neighbour? rank (i + 1) with
  | none =>
    have hnone : neighbour? rank 17 = none := List.findSome?_eq_none_iff.mp hfound 16 (by decide)
    have hunread := neighbour?_none hnone (isNeighbour_rounded rank 17)
    rw [rounded_readsAs hrank hfinite] at hunread
    cases hunread
  | some d =>
    obtain ⟨i, hi, hfirst, hbefore⟩ := findSome?_range hfound
    have hshortest : shortest rank = d := by
      rw [shortest, if_neg hrank.ne', hfound]
      rfl
    rw [hshortest]
    refine ⟨i + 1, Nat.succ_pos i, hi, hfirst, fun fewer hpos hless => ?_⟩
    obtain ⟨j, rfl⟩ : ∃ j, fewer = j + 1 := ⟨fewer - 1, by omega⟩
    exact hbefore j (by omega)

/-- A decimal of fewer digits than the search has reached does not read back. -/
theorem le_digitCount {count : Nat} {d : Decimal}
    (hfewer : ∀ fewer, 0 < fewer → fewer < count → neighbour? rank fewer = none)
    (hd : d.readsAs rank = true) : count ≤ digitCount d.digits := by
  by_contra hless
  have hpos : 0 < digitCount d.digits := Nat.length_toDigits_pos
  obtain ⟨inner, hinner, hreads, -⟩ :=
    exists_neighbour hrank hpos hfinite (lt_pow_digitCount _) hd
  have hunread := neighbour?_none (hfewer _ hpos (Nat.lt_of_not_le hless)) hinner
  rw [hreads] at hunread
  cases hunread

theorem isShortest_of_pos :
    IsShortest rank (shortest rank) ∧ (shortest rank).significant.1.length ≤ 17 := by
  obtain ⟨count, hcount, hseventeen, hfound, hfewer⟩ := exists_shortest_count hrank hfinite
  obtain ⟨hneighbour, hnearest⟩ := neighbour?_some hfound
  have hlength : (shortest rank).significant.1.length ≤ count :=
    Decimal.length_significant_le hcount (hneighbour.digits_le hrank)
  refine ⟨⟨readsAs_neighbour hfound, ?_, ?_⟩, hlength.trans hseventeen⟩
  · intro other hother
    exact hlength.trans (le_digitCount hrank hfinite hfewer hother)
  · intro other hother hfew
    have hdigits : other.digits < 10 ^ count :=
      (digitCount_le_iff hcount).mp (hfew.trans hlength)
    obtain ⟨inner, hinner, hreads, hnear⟩ := exists_neighbour hrank hcount hfinite hdigits hother
    exact (hnearest inner hinner hreads).trans hnear

end Shortest

/-- The decimal of a finite number has the fewest digits that read back, seventeen at most, and is
    the nearest one of these. -/
theorem isShortest_shortest (rank : Fin magnitudes) :
    IsShortest rank.val (shortest rank.val) ∧ (shortest rank.val).significant.1.length ≤ 17 := by
  rcases Nat.eq_zero_or_pos rank.val with hzero | hpos
  · rw [hzero]
    have hmagnitude : magnitude 0 = 0 := by
      rw [magnitude, show units 0 = 0 from rfl, Nat.cast_zero, zero_div]
    refine ⟨⟨by decide, fun other _ => Nat.length_toDigits_pos, fun other _ _ => ?_⟩, by decide⟩
    have hvalue : (shortest 0).value = 0 := zero_mul _
    rw [hvalue, hmagnitude, sub_zero, abs_zero]
    exact abs_nonneg _
  · exact isShortest_of_pos hpos rank.isLt

end TextTidy.Binary64
