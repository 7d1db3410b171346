import Mathlib.Tactic.Ring
import TextTidy.Binary64

/-!
# The nearest number

A decimal is read as the number nearest to it and, of two that are equally near, as the one of even
rank. The bounds past which the reader does no arithmetic change nothing about that: beyond them the
nearest rank is past the greatest one, or zero.

All distances are compared as natural numbers, in units of the smallest positive magnitude and
multiplied by the denominator.
-/

namespace TextTidy.Binary64

/-! ## Rounding a quotient -/

/-- How far two natural numbers are from each other. -/
def distance (a b : Nat) : Nat := ((a : Int) - b).natAbs

theorem distance_lt {n a b : Nat} (hab : a < b) (hbn : b ≤ n) : distance n b < distance n a := by
  unfold distance
  omega

theorem distance_multiples {j q : Nat} (d : Nat) (h : j ≠ q) : d ≤ distance (j * d) (q * d) := by
  unfold distance
  rcases Nat.lt_or_gt_of_ne h with hlt | hgt
  · have hmul := Nat.mul_le_mul_right d (Nat.succ_le_of_lt hlt)
    rw [Nat.succ_mul] at hmul
    omega
  · have hmul := Nat.mul_le_mul_right d (Nat.succ_le_of_lt hgt)
    rw [Nat.succ_mul] at hmul
    omega

/-- Rounding moves a quotient by half at most, and by half only onto an even number. -/
theorem roundedQuotient_half (n : Nat) {d : Nat} (hd : 0 < d) :
    2 * distance n (roundedQuotient n d * d) ≤ d ∧
      (2 * distance n (roundedQuotient n d * d) = d → roundedQuotient n d % 2 = 0) := by
  have hdiv : n / d * d + n % d = n := Nat.div_add_mod' n d
  have hmod : n % d < d := Nat.mod_lt n hd
  have hup : (n / d + 1) * d = n / d * d + d := Nat.succ_mul _ _
  unfold roundedQuotient distance
  simp only
  split
  · omega
  · split
    · rw [hup]
      omega
    · rcases Nat.mod_two_eq_zero_or_one (n / d) with heven | hodd
      · rw [heven, Nat.add_zero]
        omega
      · rw [hodd, hup]
        omega

theorem roundedQuotient_nearest (n : Nat) {d j : Nat} (hd : 0 < d) (hj : j ≠ roundedQuotient n d) :
    distance n (roundedQuotient n d * d) ≤ distance n (j * d) ∧
      (distance n (j * d) = distance n (roundedQuotient n d * d) →
        roundedQuotient n d % 2 = 0) := by
  have hhalf := roundedQuotient_half n hd
  have hapart := distance_multiples d hj
  have htriangle : distance (j * d) (roundedQuotient n d * d) ≤
      distance n (j * d) + distance n (roundedQuotient n d * d) := by
    unfold distance
    omega
  refine ⟨by omega, fun hsame => hhalf.2 (by omega)⟩

theorem le_roundedQuotient {n d k : Nat} (hd : 0 < d) (h : k * d ≤ n) :
    k ≤ roundedQuotient n d := by
  have hk : k ≤ n / d := (Nat.le_div_iff_mul_le hd).mpr h
  unfold roundedQuotient
  simp only
  split
  · exact hk
  · split <;> omega

theorem roundedQuotient_le {n d k : Nat} (hd : 0 < d) (h : n < k * d) :
    roundedQuotient n d ≤ k := by
  have hk : n / d < k := (Nat.div_lt_iff_lt_mul hd).mpr h
  unfold roundedQuotient
  simp only
  split
  · omega
  · split <;> omega

/-! ## Magnitudes in order -/

theorem fractions_eq : fractions = 2 ^ 52 := rfl

/-- What remains of a rank without its exponent: below the first exponent everything, from there on
    at least as much as there are fractions. -/
theorem rank_split (rank : Nat) :
    ∃ m, rank = binade rank * fractions + m ∧ units rank = m * 2 ^ binade rank ∧
      m < 2 ^ 53 ∧ (binade rank = 0 ∨ 2 ^ 52 ≤ m) := by
  refine ⟨rank - binade rank * fractions, ?_, rfl, ?_, ?_⟩ <;>
    simp only [binade, fractions_eq] <;> omega

/-- The magnitude of a rank whose exponent is known; the next one of the same spacing is the first
    of the exponent behind it. -/
theorem units_add {b m : Nat} (hm : m ≤ 2 ^ 53) (h : b = 0 ∨ 2 ^ 52 ≤ m) :
    units (b * fractions + m) = m * 2 ^ b := by
  by_cases hnext : m = 2 ^ 53
  · have hbinade : binade (b * fractions + m) = b + 1 := by
      simp only [binade, fractions_eq]
      omega
    have hrest : b * fractions + m - (b + 1) * fractions = 2 ^ 52 := by
      simp only [fractions_eq]
      omega
    rw [units, hbinade, hrest, hnext, Nat.pow_eq, Nat.pow_succ]
    ring
  · have hbinade : binade (b * fractions + m) = b := by
      simp only [binade, fractions_eq]
      omega
    rw [units, hbinade, Nat.add_sub_cancel_left, Nat.pow_eq]

/-- A rank of a smaller exponent lies below the first magnitude of an exponent. -/
theorem units_lt_of_binade_lt {rank b : Nat} (h : binade rank < b) :
    units rank < 2 ^ 52 * 2 ^ b := by
  obtain ⟨m, -, hunits, hm, -⟩ := rank_split rank
  calc units rank
      = m * 2 ^ binade rank := hunits
    _ < 2 ^ 53 * 2 ^ binade rank := Nat.mul_lt_mul_of_pos_right hm (Nat.two_pow_pos _)
    _ = 2 ^ (53 + binade rank) := (Nat.pow_add 2 53 _).symm
    _ ≤ 2 ^ (52 + b) := Nat.pow_le_pow_right (by decide) (by omega)
    _ = 2 ^ 52 * 2 ^ b := Nat.pow_add 2 52 b

/-- A rank of an exponent or a greater one is a multiple of the spacing of that exponent. -/
theorem exists_units_eq_mul {rank b : Nat} (h : b ≤ binade rank) :
    ∃ k, units rank = k * 2 ^ b := by
  obtain ⟨m, -, hunits, -⟩ := rank_split rank
  refine ⟨m * 2 ^ (binade rank - b), ?_⟩
  rw [hunits, Nat.mul_assoc, ← Nat.pow_add, Nat.sub_add_cancel h]

/-- A magnitude and the next one are neighbouring multiples of the spacing between them. -/
theorem units_succ (rank : Nat) :
    ∃ b m, m < 2 ^ 53 ∧ units rank = m * 2 ^ b ∧ units (rank + 1) = (m + 1) * 2 ^ b := by
  obtain ⟨m, hrank, hunits, hhigh, hlow⟩ := rank_split rank
  have hsum : rank + 1 = binade rank * fractions + (m + 1) := by omega
  have hnext : units (rank + 1) = (m + 1) * 2 ^ binade rank := by
    rw [hsum]
    exact units_add (by omega) (hlow.imp_right fun hm => by omega)
  exact ⟨binade rank, m, hhigh, hunits, hnext⟩

theorem units_strictMono : StrictMono units := by
  refine strictMono_nat_of_lt_succ fun rank => ?_
  obtain ⟨b, m, -, hunits, hnext⟩ := units_succ rank
  rw [hunits, hnext]
  exact Nat.mul_lt_mul_of_pos_right (Nat.lt_succ_self m) (Nat.two_pow_pos _)

theorem units_pos {rank : Nat} (h : 0 < rank) : 0 < units rank :=
  Nat.zero_lt_of_lt (units_strictMono h)

theorem unitsPerOne_eq : unitsPerOne = 2 ^ 1074 := by
  unfold unitsPerOne
  generalize 1074 = e
  exact Nat.pow_eq

theorem unitsPerOne_pos : 0 < unitsPerOne := by
  unfold unitsPerOne
  generalize 1074 = e
  exact Nat.two_pow_pos e

/-! ## The nearest rank -/

/-- How far the magnitude of a rank is from a quotient. -/
def gap (numerator denominator rank : Nat) : Nat :=
  distance (numerator * unitsPerOne) (units rank * denominator)

/-- A rank is the one that a quotient is rounded to: no other one is nearer, and it is even if
    another one is as near. -/
structure RoundsTo (numerator denominator rank : Nat) : Prop where
  nearest : ∀ other, gap numerator denominator rank ≤ gap numerator denominator other
  even : ∀ other, other ≠ rank →
    gap numerator denominator other = gap numerator denominator rank → rank % 2 = 0

/-- The exponent of the nearest rank and the fractions in it. Unless the exponent is the first one,
    the quotient is no less than the first magnitude of that exponent. -/
theorem nearestRank_split (n : Nat) {d : Nat} (hd : 0 < d) :
    ∃ b q, nearestRank n d = b * fractions + q ∧ q = roundedQuotient (n * unitsPerOne) (d * 2 ^ b) ∧
      q ≤ 2 ^ 53 ∧ (b = 0 ∨ 2 ^ 52 * (d * 2 ^ b) ≤ n * unitsPerOne ∧ 2 ^ 52 ≤ q) := by
  obtain ⟨b, hb⟩ : ∃ b, b = (n * unitsPerOne / d).log2 - 52 := ⟨_, rfl⟩
  have hspacing : 0 < d * 2 ^ b := Nat.mul_pos hd (Nat.two_pow_pos b)
  refine ⟨b, roundedQuotient (n * unitsPerOne) (d * 2 ^ b), ?_, rfl, ?_, ?_⟩
  · unfold nearestRank
    simp only [← hb, Nat.pow_eq]
  · refine roundedQuotient_le hspacing ?_
    have hhigh : n * unitsPerOne / d < 2 ^ (53 + b) :=
      Nat.lt_of_lt_of_le Nat.lt_log2_self (Nat.pow_le_pow_right (by decide) (by omega))
    calc n * unitsPerOne
        < 2 ^ (53 + b) * d := (Nat.div_lt_iff_lt_mul hd).mp hhigh
      _ = 2 ^ 53 * (d * 2 ^ b) := by ring
  · by_cases hfirst : b = 0
    · exact .inl hfirst
    · have hwhole : n * unitsPerOne / d ≠ 0 := by
        intro hzero
        rw [hzero] at hb
        exact hfirst hb
      have hlow : 2 ^ (52 + b) ≤ n * unitsPerOne / d :=
        (Nat.le_log2 hwhole).mp (by omega)
      have hreached : 2 ^ 52 * (d * 2 ^ b) ≤ n * unitsPerOne := by
        calc 2 ^ 52 * (d * 2 ^ b)
            = 2 ^ (52 + b) * d := by ring
          _ ≤ n * unitsPerOne := (Nat.le_div_iff_mul_le hd).mp hlow
      exact .inr ⟨hreached, le_roundedQuotient hspacing hreached⟩

/-- No rank is nearer than the nearest one. A rank of the same exponent or a greater one competes
    within the same spacing; one of a smaller exponent lies below the first magnitude of that
    exponent, which the quotient has reached. -/
theorem gap_nearestRank (n : Nat) {d other : Nat} (hd : 0 < d) (hother : other ≠ nearestRank n d) :
    gap n d (nearestRank n d) ≤ gap n d other ∧
      (gap n d other = gap n d (nearestRank n d) → nearestRank n d % 2 = 0) := by
  obtain ⟨b, q, hrank, hq, hqhigh, hreached⟩ := nearestRank_split n hd
  have hspacing : 0 < d * 2 ^ b := Nat.mul_pos hd (Nat.two_pow_pos b)
  have hunits : units (nearestRank n d) = q * 2 ^ b := by
    rw [hrank]
    exact units_add hqhigh (hreached.imp_right And.right)
  have hgap : gap n d (nearestRank n d) = distance (n * unitsPerOne) (q * (d * 2 ^ b)) := by
    rw [gap, hunits]
    congr 1
    ring
  have hparity : nearestRank n d % 2 = q % 2 := by
    rw [hrank, fractions_eq]
    omega
  rw [hgap, hparity]
  rcases Nat.lt_or_ge (binade other) b with hbelow | habove
  · obtain ⟨hstart, -⟩ := hreached.resolve_left (by omega)
    have hless : units other * d < 2 ^ 52 * (d * 2 ^ b) :=
      calc units other * d
          < 2 ^ 52 * 2 ^ b * d := Nat.mul_lt_mul_of_pos_right (units_lt_of_binade_lt hbelow) hd
        _ = 2 ^ 52 * (d * 2 ^ b) := by ring
    have hfirst : distance (n * unitsPerOne) (q * (d * 2 ^ b)) ≤
        distance (n * unitsPerOne) (2 ^ 52 * (d * 2 ^ b)) := by
      by_cases hsame : 2 ^ 52 = q
      · rw [hsame]
      · rw [hq] at hsame ⊢
        exact (roundedQuotient_nearest _ hspacing hsame).1
    have hstrict := Nat.lt_of_le_of_lt hfirst (distance_lt hless hstart)
    exact ⟨Nat.le_of_lt hstrict, fun hsame => absurd hsame (Nat.ne_of_gt hstrict)⟩
  · obtain ⟨k, hmultiple⟩ := exists_units_eq_mul habove
    have hne : k ≠ q := by
      intro hsame
      rw [hsame, ← hunits] at hmultiple
      exact hother (units_strictMono.injective hmultiple)
    have hgapOther : gap n d other = distance (n * unitsPerOne) (k * (d * 2 ^ b)) := by
      rw [gap, hmultiple]
      congr 1
      ring
    rw [hgapOther]
    rw [hq] at hne ⊢
    exact roundedQuotient_nearest _ hspacing hne

theorem roundsTo_nearestRank (n : Nat) {d : Nat} (hd : 0 < d) : RoundsTo n d (nearestRank n d) where
  nearest other := by
    by_cases hother : other = nearestRank n d
    · rw [hother]
    · exact (gap_nearestRank n hd hother).1
  even _ hother := (gap_nearestRank n hd hother).2

/-- Between two ranks of the same parity there is one that is nearer than the farther of them. -/
theorem gap_between (n : Nat) {d low high : Nat} (hd : 0 < d) (h : low + 1 < high) :
    gap n d (low + 1) < gap n d low ∨ gap n d (low + 1) < gap n d high := by
  have hlow : units low * d < units (low + 1) * d :=
    Nat.mul_lt_mul_of_pos_right (units_strictMono (Nat.lt_succ_self low)) hd
  have hhigh : units (low + 1) * d < units high * d :=
    Nat.mul_lt_mul_of_pos_right (units_strictMono h) hd
  unfold gap distance
  omega

theorem RoundsTo.not_lt {n d a b : Nat} (hd : 0 < d) (ha : RoundsTo n d a) (hb : RoundsTo n d b) :
    ¬ a < b := by
  intro hlt
  have hsame : gap n d a = gap n d b := Nat.le_antisymm (ha.nearest b) (hb.nearest a)
  have heven_a := ha.even b (Nat.ne_of_gt hlt) hsame.symm
  have heven_b := hb.even a (Nat.ne_of_lt hlt) hsame
  have hapart : a + 1 < b := by omega
  have hmiddle := gap_between n hd hapart
  have hnot_a := ha.nearest (a + 1)
  have hnot_b := hb.nearest (a + 1)
  omega

/-- A quotient is rounded to one rank only. -/
theorem roundsTo_iff {n d rank : Nat} (hd : 0 < d) :
    RoundsTo n d rank ↔ nearestRank n d = rank := by
  constructor
  · intro h
    have hown := roundsTo_nearestRank n hd
    exact Nat.le_antisymm (Nat.not_lt.mp (h.not_lt hd hown)) (Nat.not_lt.mp (hown.not_lt hd h))
  · rintro rfl
    exact roundsTo_nearestRank n hd

/-- A magnitude of the format is rounded to its own rank. -/
theorem nearestRank_units (rank : Nat) : nearestRank (units rank) unitsPerOne = rank := by
  have hown : gap (units rank) unitsPerOne rank = 0 := by
    unfold gap distance
    omega
  refine (roundsTo_iff unitsPerOne_pos).mp ⟨fun other => ?_, fun other hother hsame => ?_⟩
  · rw [hown]
    exact Nat.zero_le _
  · have hunits : units rank * unitsPerOne = units other * unitsPerOne := by
      rw [hown] at hsame
      unfold gap distance at hsame
      omega
    have heq := Nat.eq_of_mul_eq_mul_right unitsPerOne_pos hunits
    exact absurd (units_strictMono.injective heq).symm hother

/-! ## Reading decimals -/

/-- How a decimal is read, in one equation for exponents of either sign. -/
theorem ofDecimal_eq (negative : Bool) (digits : Nat) (exponent : Int) :
    ofDecimal negative digits exponent =
      if digits = 0 then signedZero negative
      else if 310 < (digitCount digits : Int) + exponent then .infinite negative
      else if (digitCount digits : Int) + exponent < -330 then signedZero negative
      else ofRank negative
        (nearestRank (digits * 10 ^ exponent.toNat) (10 ^ (-exponent).toNat)) := by
  cases exponent with
  | ofNat e =>
    have hneg : (-(Int.ofNat e)).toNat = 0 := by
      rw [Int.ofNat_eq_natCast]
      omega
    rw [hneg]
    rfl
  | negSucc e =>
    have hneg : (-(Int.negSucc e)).toNat = e + 1 := rfl
    have hpos : (Int.negSucc e).toNat = 0 := rfl
    rw [hneg, hpos, Nat.pow_zero, Nat.mul_one]
    rfl

theorem digitCount_le_iff {n k : Nat} (hk : 0 < k) : digitCount n ≤ k ↔ n < 10 ^ k :=
  Nat.length_toDigits_le_iff (by decide) hk

theorem roundedQuotient_small {n d : Nat} (h : 2 * n < d) : roundedQuotient n d = 0 := by
  have hquotient : n / d = 0 := Nat.div_eq_of_lt (by omega)
  have hremainder : n % d = n := Nat.mod_eq_of_lt (by omega)
  unfold roundedQuotient
  simp only [hquotient, hremainder, h, if_true]

/-- A quotient below half the smallest positive magnitude is rounded to zero. -/
theorem nearestRank_small {n d : Nat} (h : 2 * (n * unitsPerOne) < d) : nearestRank n d = 0 := by
  have hquotient : n * unitsPerOne / d = 0 := Nat.div_eq_of_lt (by omega)
  have hlog : (0 : Nat).log2 - 52 = 0 := rfl
  unfold nearestRank
  simp only [hquotient, hlog, Nat.pow_eq, Nat.pow_zero, Nat.mul_one, Nat.zero_mul, Nat.zero_add]
  exact roundedQuotient_small h

/-- A quotient that no finite magnitude reaches is rounded past the greatest one. -/
theorem magnitudes_le_nearestRank {n d : Nat} (hd : 0 < d)
    (h : units magnitudes * d ≤ n * unitsPerOne) : magnitudes ≤ nearestRank n d := by
  by_contra hfinite
  have hless : units (nearestRank n d) * d < units magnitudes * d :=
    Nat.mul_lt_mul_of_pos_right (units_strictMono (Nat.lt_of_not_le hfinite)) hd
  have hnearest := (roundsTo_nearestRank n hd).nearest magnitudes
  exact Nat.not_lt.mpr hnearest (distance_lt hless h)

theorem lt_pow_digitCount (digits : Nat) : digits < 10 ^ digitCount digits :=
  (digitCount_le_iff Nat.length_toDigits_pos).mp (Nat.le_refl _)

theorem pow_le_of_lt_digitCount {digits k : Nat} (hdigits : digits ≠ 0)
    (h : k < digitCount digits) : 10 ^ k ≤ digits := by
  by_contra hsmall
  rcases Nat.eq_zero_or_pos k with hzero | hpos
  · rw [hzero] at hsmall
    omega
  · have hcount := (digitCount_le_iff hpos).mpr (Nat.lt_of_not_le hsmall)
    omega

/-- A decimal of more places before the point than any finite magnitude has. -/
theorem magnitudes_le_of_point {digits places : Nat} {exponent : Int}
    (hplaces : units magnitudes ≤ 10 ^ places * unitsPerOne) (hdigits : digits ≠ 0)
    (h : (places : Int) < digitCount digits + exponent) :
    magnitudes ≤ nearestRank (digits * 10 ^ exponent.toNat) (10 ^ (-exponent).toNat) := by
  have hcount : 0 < digitCount digits := Nat.length_toDigits_pos
  have hlead : 10 ^ (digitCount digits - 1) ≤ digits :=
    pow_le_of_lt_digitCount hdigits (by omega)
  have hlarge : 10 ^ places * 10 ^ (-exponent).toNat ≤ digits * 10 ^ exponent.toNat := by
    calc 10 ^ places * 10 ^ (-exponent).toNat
        = 10 ^ (places + (-exponent).toNat) := (Nat.pow_add ..).symm
      _ ≤ 10 ^ (digitCount digits - 1 + exponent.toNat) :=
          Nat.pow_le_pow_right (by decide) (by omega)
      _ = 10 ^ (digitCount digits - 1) * 10 ^ exponent.toNat := Nat.pow_add ..
      _ ≤ digits * 10 ^ exponent.toNat := Nat.mul_le_mul_right _ hlead
  refine magnitudes_le_nearestRank (Nat.pow_pos (by decide)) ?_
  calc units magnitudes * 10 ^ (-exponent).toNat
      ≤ 10 ^ places * unitsPerOne * 10 ^ (-exponent).toNat := Nat.mul_le_mul_right _ hplaces
    _ = 10 ^ places * 10 ^ (-exponent).toNat * unitsPerOne := Nat.mul_right_comm ..
    _ ≤ digits * 10 ^ exponent.toNat * unitsPerOne := Nat.mul_le_mul_right _ hlarge

/-- A decimal that begins further behind the point than half the smallest positive magnitude. -/
theorem nearestRank_of_point {digits places : Nat} {exponent : Int}
    (hplaces : 2 * unitsPerOne ≤ 10 ^ places)
    (h : (digitCount digits : Int) + exponent < -places) :
    nearestRank (digits * 10 ^ exponent.toNat) (10 ^ (-exponent).toNat) = 0 := by
  have hsmall : digits * 10 ^ exponent.toNat < 10 ^ (digitCount digits + exponent.toNat) := by
    rw [Nat.pow_add]
    exact Nat.mul_lt_mul_of_pos_right (lt_pow_digitCount digits) (Nat.pow_pos (by decide))
  refine nearestRank_small ?_
  calc 2 * (digits * 10 ^ exponent.toNat * unitsPerOne)
      = digits * 10 ^ exponent.toNat * (2 * unitsPerOne) := Nat.mul_left_comm ..
    _ < 10 ^ (digitCount digits + exponent.toNat) * (2 * unitsPerOne) :=
        Nat.mul_lt_mul_of_pos_right hsmall (Nat.mul_pos (by decide) unitsPerOne_pos)
    _ ≤ 10 ^ (digitCount digits + exponent.toNat) * 10 ^ places := Nat.mul_le_mul_left _ hplaces
    _ = 10 ^ (digitCount digits + exponent.toNat + places) := (Nat.pow_add ..).symm
    _ ≤ 10 ^ (-exponent).toNat := Nat.pow_le_pow_right (by decide) (by omega)

theorem units_magnitudes_le {places : Nat} (h : places = 310) :
    units magnitudes ≤ 10 ^ places * unitsPerOne := by
  rw [h]
  decide +kernel

theorem two_unitsPerOne_le {places : Nat} (h : places = 330) : 2 * unitsPerOne ≤ 10 ^ places := by
  rw [h]
  decide +kernel

theorem ofRank_of_lt (negative : Bool) {rank : Nat} (h : rank < magnitudes) :
    ofRank negative rank = .finite negative ⟨rank, h⟩ := dif_pos h

theorem ofRank_of_le (negative : Bool) {rank : Nat} (h : magnitudes ≤ rank) :
    ofRank negative rank = .infinite negative := dif_neg (Nat.not_lt.mpr h)

/-- A decimal is read as the rank that it is rounded to, whatever its size. -/
theorem ofDecimal_eq_ofRank (negative : Bool) (digits : Nat) (exponent : Int) :
    ofDecimal negative digits exponent =
      ofRank negative
        (nearestRank (digits * 10 ^ exponent.toNat) (10 ^ (-exponent).toNat)) := by
  have hzero : ofRank negative 0 = signedZero negative := ofRank_of_lt negative (by decide)
  rw [ofDecimal_eq]
  split
  · rename_i hdigits
    have hten : 0 < 10 ^ (-exponent).toNat := Nat.pow_pos (by decide)
    rw [hdigits, Nat.zero_mul, nearestRank_small (by omega), hzero]
  · rename_i hdigits
    split
    · rename_i hhigh
      obtain ⟨places, hplaces⟩ : ∃ places : Nat, places = 310 := ⟨_, rfl⟩
      have hmany : (places : Int) < digitCount digits + exponent := by omega
      rw [ofRank_of_le negative
        (magnitudes_le_of_point (units_magnitudes_le hplaces) hdigits hmany)]
    · split
      · rename_i hlow
        obtain ⟨places, hplaces⟩ : ∃ places : Nat, places = 330 := ⟨_, rfl⟩
        have hfar : (digitCount digits : Int) + exponent < -places := by omega
        rw [nearestRank_of_point (two_unitsPerOne_le hplaces) hfar, hzero]
      · rfl

/-- A decimal is read as a finite number exactly if that number is the one it is rounded to. -/
theorem ofDecimal_finite_iff {negative sign : Bool} {digits : Nat} {exponent : Int}
    {rank : Fin magnitudes} :
    ofDecimal negative digits exponent = .finite sign rank ↔
      negative = sign ∧
        RoundsTo (digits * 10 ^ exponent.toNat) (10 ^ (-exponent).toNat) rank.val := by
  have hten : 0 < 10 ^ (-exponent).toNat := Nat.pow_pos (by decide)
  rw [ofDecimal_eq_ofRank, roundsTo_iff hten]
  generalize nearestRank _ _ = nearest
  rcases Nat.lt_or_ge nearest magnitudes with hfinite | hpast
  · rw [ofRank_of_lt negative hfinite, Binary64.finite.injEq, Fin.ext_iff]
  · rw [ofRank_of_le negative hpast]
    constructor
    · intro h
      cases h
    · rintro ⟨-, rfl⟩
      exact absurd rank.isLt (Nat.not_lt.mpr hpast)

/-- A decimal is read as an infinity exactly if it is rounded past the greatest finite number. -/
theorem ofDecimal_infinite_iff {negative sign : Bool} {digits : Nat} {exponent : Int} :
    ofDecimal negative digits exponent = .infinite sign ↔
      negative = sign ∧ ∃ rank, magnitudes ≤ rank ∧
        RoundsTo (digits * 10 ^ exponent.toNat) (10 ^ (-exponent).toNat) rank := by
  have hten : 0 < 10 ^ (-exponent).toNat := Nat.pow_pos (by decide)
  simp only [ofDecimal_eq_ofRank, roundsTo_iff hten]
  generalize nearestRank _ _ = nearest
  rcases Nat.lt_or_ge nearest magnitudes with hfinite | hpast
  · rw [ofRank_of_lt negative hfinite]
    constructor
    · intro h
      cases h
    · rintro ⟨-, rank, hrank, rfl⟩
      exact absurd hfinite (Nat.not_lt.mpr hrank)
  · rw [ofRank_of_le negative hpast, Binary64.infinite.injEq]
    exact ⟨fun h => ⟨h, nearest, hpast, rfl⟩, And.left⟩

end TextTidy.Binary64
