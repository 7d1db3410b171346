import Mathlib.Data.List.Basic
import Mathlib.Data.List.Induction
import TextTidy.Json.Writer
import TextTidy.Proofs.Binary64.Decimal
import TextTidy.Proofs.Json.Number

/-!
# Numbers as they are written

Integers are written digit by digit. Floating-point numbers are written with a point or an exponent
around the digits of their shortest decimal. Either is a number of the grammar, and it denotes what
was written.
-/

namespace TextTidy.Json

open Grammar Binary64

/-! ## The number that digits stand for -/

theorem isDigit_zero : '0'.isDigit = true := rfl

def zeroDigit : Digit := ⟨'0', isDigit_zero⟩

/-- The integer that digits make up. -/
def digitsNumber (ds : List Digit) : Nat := Text.numberOfDigits (digitValues ds)

theorem digitsNumber_append (ds es : List Digit) :
    digitsNumber (ds ++ es) = digitsNumber ds * 10 ^ es.length + digitsNumber es := by
  have hfold : ∀ (values : List Nat) (start : Nat),
      values.foldl (fun n digit => 10 * n + digit) start =
        start * 10 ^ values.length + Text.numberOfDigits values := by
    intro values
    induction values with
    | nil => simp [Text.numberOfDigits]
    | cons value values ih =>
      intro start
      have hfirst : Text.numberOfDigits (value :: values) =
          value * 10 ^ values.length + Text.numberOfDigits values := by
        show values.foldl (fun n digit => 10 * n + digit) (10 * 0 + value) = _
        rw [ih, Nat.mul_zero, Nat.zero_add]
      rw [List.foldl_cons, ih, hfirst, List.length_cons, Nat.pow_succ]
      ring
  unfold digitsNumber digitValues Text.numberOfDigits
  rw [List.map_append, List.foldl_append, hfold, List.length_map]
  rfl

theorem digitsNumber_zeros (k : Nat) : digitsNumber (List.replicate k zeroDigit) = 0 := by
  induction k with
  | zero => rfl
  | succ k ih => rw [List.replicate_succ', digitsNumber_append, ih]; rfl

theorem digitsNumber_zeros_append (k : Nat) (ds : List Digit) :
    digitsNumber (List.replicate k zeroDigit ++ ds) = digitsNumber ds := by
  rw [digitsNumber_append, digitsNumber_zeros, Nat.zero_mul, Nat.zero_add]

theorem digitsNumber_append_zeros (ds : List Digit) (k : Nat) :
    digitsNumber (ds ++ List.replicate k zeroDigit) = digitsNumber ds * 10 ^ k := by
  rw [digitsNumber_append, digitsNumber_zeros, List.length_replicate, Nat.add_zero]

theorem digitsNumber_eq (ds : List Digit) :
    digitsNumber ds = Nat.ofDigitChars 10 (ds.map Subtype.val) 0 := by
  unfold digitsNumber digitValues Text.numberOfDigits Nat.ofDigitChars
  rw [List.foldl_map, List.foldl_map]

theorem digitsText_eq (ds : List Digit) :
    digitsText ds = (ds.map Subtype.val).map CodePoint.char := by
  rw [digitsText, List.map_map]
  rfl

/-- The digits of a natural number. -/
theorem exists_toDigits (n : Nat) :
    ∃ ds : List Digit, ds.map Subtype.val = Nat.toDigits 10 n ∧ digitsNumber ds = n ∧
      ds.length = digitCount n := by
  have hdigit : ∀ c ∈ Nat.toDigits 10 n, c.isDigit = true := fun c hc =>
    Nat.isDigit_of_mem_toDigits (by decide) (by decide) hc
  have hval : ((Nat.toDigits 10 n).attachWith _ hdigit).map Subtype.val = Nat.toDigits 10 n := by
    simp
  refine ⟨_, hval, ?_, ?_⟩
  · rw [digitsNumber_eq, hval, Nat.ofDigitChars_toDigits (by decide) (by decide)]
  · rw [List.length_attachWith]
    rfl

theorem digitsNumber_lt (ds : List Digit) : digitsNumber ds < 10 ^ ds.length := by
  induction ds with
  | nil => decide
  | cons d ds ih =>
    have hd : digitsNumber [d] < 10 := by
      have hrange := d.property
      show 10 * 0 + (d.val.toNat - '0'.toNat) < 10
      simp only [Char.isDigit, Bool.and_eq_true, decide_eq_true_eq] at hrange
      have hhigh : d.val.toNat ≤ 57 := hrange.2
      have hzero : '0'.toNat = 48 := rfl
      omega
    have hcons : digitsNumber (d :: ds) = digitsNumber [d] * 10 ^ ds.length + digitsNumber ds :=
      digitsNumber_append [d] ds
    rw [hcons, List.length_cons, Nat.pow_succ]
    have := Nat.mul_le_mul_right (10 ^ ds.length) (Nat.le_of_lt_succ hd)
    omega

/-- A positive number does not begin with a zero. -/
theorem head_ne_zero {d : Digit} {ds : List Digit} (hpos : 0 < digitsNumber (d :: ds))
    (hcount : (d :: ds).length = digitCount (digitsNumber (d :: ds))) : d.val ≠ '0' := by
  intro hzero
  have hd : d = zeroDigit := Subtype.ext hzero
  have hvalue : digitsNumber (d :: ds) = digitsNumber ds := by
    rw [hd]
    exact digitsNumber_zeros_append 1 ds
  have hsmall := digitsNumber_lt ds
  rw [hvalue] at hcount hpos
  cases ds with
  | nil => exact absurd hpos (by decide)
  | cons e es =>
    have hle := (digitCount_le_iff (Nat.succ_pos es.length)).mpr hsmall
    rw [← hcount] at hle
    simp at hle

/-! ## Integers -/

/-- Digits that a number may have before its point. -/
def Leads (ds : List Digit) : Prop :=
  ds = [zeroDigit] ∨ ∃ first others, ds = first :: others ∧ first.val ≠ '0'

theorem Leads.exists_whole {ds : List Digit} (h : Leads ds) :
    ∃ whole : Whole, whole.toList = ds := by
  rcases h with rfl | ⟨first, others, rfl, hfirst⟩
  · exact ⟨.zero, rfl⟩
  · exact ⟨.other first hfirst others, rfl⟩

/-- The digits of a natural number stand before a point as they are. -/
theorem exists_natural (n : Nat) :
    ∃ ds : List Digit, ds.map Subtype.val = Nat.toDigits 10 n ∧ Leads ds ∧ digitsNumber ds = n ∧
      ds.length = digitCount n := by
  obtain ⟨ds, hval, hnumber, hlength⟩ := exists_toDigits n
  have hleads : Leads ds := by
    by_cases hn : n = 0
    · subst hn
      have hzero : ds.map Subtype.val = [zeroDigit].map Subtype.val := hval
      exact Or.inl (List.map_injective_iff.mpr Subtype.val_injective hzero)
    · cases ds with
      | nil =>
        rw [← hnumber] at hn
        exact absurd rfl hn
      | cons d ds =>
        have hpos : 0 < digitsNumber (d :: ds) := by omega
        exact Or.inr ⟨d, ds, rfl, head_ne_zero hpos (by rw [hnumber, hlength])⟩
  exact ⟨ds, hval, hleads, hnumber, hlength⟩

theorem toList_repr (n : Nat) : (Nat.repr n).toList = Nat.toDigits 10 n := by
  rw [Nat.repr_eq_ofList_toDigits, String.toList_ofList]

/-- An integer is written as a number that denotes it. -/
theorem exists_integer (z : Int) :
    ∃ n : Number, n.text = Text.ofString (toString z) ∧ n.value = .int z ∧
      n.integerLength = digitCount z.natAbs := by
  obtain ⟨ds, hval, hleads, hnumber, hlength⟩ := exists_natural z.natAbs
  have htext : digitsText ds = (Nat.toDigits 10 z.natAbs).map CodePoint.char := by
    rw [digitsText_eq, hval]
  obtain ⟨whole, rfl⟩ := hleads.exists_whole
  have hall : ∀ negative, (Number.mk negative whole none none).allDigits = z.natAbs := by
    intro negative
    rw [← hnumber]
    simp [Number.allDigits, fractionDigits, digitsNumber]
  cases z with
  | ofNat n =>
    refine ⟨⟨false, whole, none, none⟩, ?_, ?_, ?_⟩
    · show [] ++ digitsText whole.toList ++ [] ++ [] = _
      rw [htext, List.nil_append, List.append_nil, List.append_nil, ← toList_repr]
      rfl
    · rw [Number.value, hall]
      rfl
    · rw [Number.integerLength, hlength]
      rfl
  | negSucc n =>
    refine ⟨⟨true, whole, none, none⟩, ?_, ?_, ?_⟩
    · show [CodePoint.char '-'] ++ digitsText whole.toList ++ [] ++ [] = _
      have hminus : (toString (Int.negSucc n)).toList = '-' :: (Nat.repr (n + 1)).toList := by
        show ("-" ++ Nat.repr (n + 1)).toList = _
        rw [String.toList_append]
        rfl
      rw [htext, List.append_nil, List.append_nil, Text.ofString, hminus, toList_repr]
      rfl
    · rw [Number.value, hall]
      rfl
    · rw [Number.integerLength, hlength]
      rfl

/-! ## Floating-point numbers -/

theorem exists_nonempty_digits {ds : List Digit} (h : ds ≠ []) :
    ∃ digits : Digits, digits.toList = ds := by
  cases ds with
  | nil => exact absurd rfl h
  | cons first others => exact ⟨⟨first, others⟩, rfl⟩

theorem Leads.take {ds : List Digit} (h : Leads ds) (places : Nat) (hplaces : 0 < places)
    (hzero : ds = [zeroDigit] → places = 1) :
    Leads (ds.take places ++ List.replicate (places - ds.length) zeroDigit) := by
  obtain ⟨places, rfl⟩ := Nat.exists_eq_add_one_of_ne_zero (Nat.ne_of_gt hplaces)
  rcases h with hds | ⟨first, others, rfl, hfirst⟩
  · have hone := hzero hds
    rw [hds, hone]
    exact Or.inl rfl
  · exact Or.inr ⟨first, _, rfl, hfirst⟩

/-- The digits behind a point that stands behind some digits; there is always one. -/
def behindPoint (ds : List Digit) (places : Nat) : List Digit :=
  if ds.length ≤ places then [zeroDigit] else ds.drop places

theorem positional_places (ds : List Digit) {places : Nat} (h : 0 < places) :
    positional (ds.map Subtype.val) places =
      (ds.take places ++ List.replicate (places - ds.length) zeroDigit).map Subtype.val ++
        '.' :: (behindPoint ds places).map Subtype.val := by
  have hpoint : ¬ (places : Int) ≤ 0 := by omega
  have hempty : ((ds.map Subtype.val).drop places).isEmpty = decide (ds.length ≤ places) := by
    rw [Bool.eq_iff_iff, List.isEmpty_iff, List.drop_eq_nil_iff, List.length_map,
      decide_eq_true_iff]
  unfold positional behindPoint
  simp only [if_neg hpoint, Int.toNat_natCast, hempty, List.length_map, List.map_append,
    List.map_take, List.map_replicate, decide_eq_true_eq]
  by_cases hlong : ds.length ≤ places
  · rw [if_pos hlong, if_pos hlong]
    rfl
  · rw [if_neg hlong, if_neg hlong, List.map_drop]
    rfl

/-- With the point behind some digits, what stands around it is worth the digits. -/
theorem ofDecimal_places (negative : Bool) (ds : List Digit) (places : Nat) :
    ofDecimal negative (digitsNumber
        (ds.take places ++ List.replicate (places - ds.length) zeroDigit ++ behindPoint ds places))
        (-((behindPoint ds places).length : Int)) =
      ofDecimal negative (digitsNumber ds) ((places : Int) - ds.length) := by
  unfold behindPoint
  by_cases hlong : ds.length ≤ places
  · have hzeros : List.replicate (places - ds.length) zeroDigit ++ [zeroDigit] =
        List.replicate (places - ds.length + 1) zeroDigit := List.replicate_succ'.symm
    have hpower : -(([zeroDigit] : List Digit).length : Int) + (places - ds.length + 1 : Nat) =
        places - ds.length := by
      rw [List.length_singleton]
      omega
    rw [if_pos hlong, List.take_of_length_le hlong, List.append_assoc, hzeros,
      digitsNumber_append_zeros, ofDecimal_mul_pow, hpower]
  · have hnone : places - ds.length = 0 := by omega
    have hpower : -((ds.drop places).length : Int) = places - ds.length := by
      rw [List.length_drop]
      omega
    rw [if_neg hlong, hnone, List.replicate_zero, List.append_nil, List.take_append_drop, hpower]

/-- Digits with a point in them are a number of the grammar that is worth the digits. -/
theorem exists_positional {ds : List Digit} {point : Int} (hleads : Leads ds)
    (hzero : ds = [zeroDigit] → point = 1) :
    ∃ (whole : Whole) (fraction : Digits),
      digitsText whole.toList ++ .char '.' :: digitsText fraction.toList =
        (positional (ds.map Subtype.val) point).map CodePoint.char ∧
      ∀ negative, ofDecimal negative (digitsNumber (whole.toList ++ fraction.toList))
          (-(fraction.toList.length : Int)) =
        ofDecimal negative (digitsNumber ds) (point - ds.length) := by
  have hne : ds ≠ [] := by
    rcases hleads with rfl | ⟨first, others, rfl, -⟩ <;> simp
  by_cases hpoint : point ≤ 0
  · have hzeros : List.replicate (-point).toNat zeroDigit ++ ds ≠ [] := by simp [hne]
    obtain ⟨fraction, hfraction⟩ := exists_nonempty_digits hzeros
    refine ⟨.zero, fraction, ?_, fun negative => ?_⟩
    · rw [hfraction, positional, if_pos hpoint]
      simp [digitsText, Whole.toList, zeroDigit]
    · have hnumber :
          digitsNumber (Whole.zero.toList ++ (List.replicate (-point).toNat zeroDigit ++ ds)) =
            digitsNumber ds := by
        show digitsNumber (List.replicate 1 zeroDigit ++ _) = _
        rw [digitsNumber_zeros_append, digitsNumber_zeros_append]
      have hpower : -((List.replicate (-point).toNat zeroDigit ++ ds).length : Int) =
          point - ds.length := by
        rw [List.length_append, List.length_replicate]
        omega
      rw [hfraction, hnumber, hpower]
  · obtain ⟨places, rfl⟩ : ∃ places : Nat, point = places := ⟨point.toNat, by omega⟩
    have hplaces : 0 < places := by omega
    have hbehind : behindPoint ds places ≠ [] := by
      unfold behindPoint
      split
      · simp
      · rename_i hlong
        exact fun hnil => hlong (List.drop_eq_nil_iff.mp hnil)
    obtain ⟨whole, hwhole⟩ :=
      (hleads.take places hplaces fun h => Int.ofNat.inj (hzero h)).exists_whole
    obtain ⟨fraction, hfraction⟩ := exists_nonempty_digits hbehind
    refine ⟨whole, fraction, ?_, fun negative => ?_⟩
    · rw [positional_places ds hplaces, List.map_append, List.map_cons, ← digitsText_eq,
        ← digitsText_eq, hwhole, hfraction]
    · rw [hwhole, hfraction, ofDecimal_places]

/-- A power of ten is written as an exponent that denotes it. -/
theorem exists_exponent_power (power : Int) :
    ∃ e : Exponent, e.value = power ∧
      e.text = (['e', if power < 0 then '-' else '+'] ++
        List.replicate (2 - (Nat.toDigits 10 power.natAbs).length) '0' ++
          Nat.toDigits 10 power.natAbs).map CodePoint.char := by
  obtain ⟨ds, hval, hnumber, -⟩ := exists_toDigits power.natAbs
  have hne : List.replicate (2 - ds.length) zeroDigit ++ ds ≠ [] := by
    intro hnil
    have hlength := congrArg List.length hnil
    rw [List.length_append, List.length_replicate, List.length_nil] at hlength
    omega
  obtain ⟨digits, hdigits⟩ := exists_nonempty_digits hne
  have hmagnitude : (Text.numberOfDigits (digitValues digits.toList) : Int) = power.natAbs := by
    rw [hdigits, ← hnumber]
    exact congrArg Nat.cast (digitsNumber_zeros_append _ ds)
  refine ⟨⟨false, some (decide (power < 0)), digits⟩, ?_, ?_⟩
  · by_cases hpower : power < 0
    · simp only [Exponent.value, hmagnitude, hpower, decide_true, if_true]
      omega
    · simp only [Exponent.value, hmagnitude, hpower, decide_false, Option.some.injEq,
        Bool.false_eq_true, if_false]
      omega
  · have hlength : (Nat.toDigits 10 power.natAbs).length = ds.length := by
      rw [← hval, List.length_map]
    have htext : digitsText digits.toList = (List.replicate (2 - ds.length) '0' ++
        Nat.toDigits 10 power.natAbs).map CodePoint.char := by
      rw [hdigits, digitsText_eq, List.map_append, List.map_replicate, hval]
      rfl
    rw [Exponent.text, htext, hlength]
    by_cases hpower : power < 0 <;> simp [hpower, Exponent.mark, exponentSignText]

/-- Digits with the point behind the first one and an exponent are a number of the grammar that is
    worth the digits. -/
theorem exists_scientific {first : Digit} (hfirst : first.val ≠ '0') (others : List Digit)
    (point : Int) :
    ∃ (whole : Whole) (fraction : Option Digits) (e : Exponent),
      digitsText whole.toList ++ fractionText fraction ++ e.text =
        (scientific ((first :: others).map Subtype.val) point).map CodePoint.char ∧
      whole.toList ++ fractionDigits fraction = first :: others ∧
      e.value - (fractionDigits fraction).length = point - (first :: others).length := by
  obtain ⟨e, hvalue, htext⟩ := exists_exponent_power (point - 1)
  cases others with
  | nil =>
    refine ⟨.other first hfirst [], none, e, ?_, rfl, ?_⟩
    · rw [htext]
      simp [scientific, digitsText, Whole.toList, fractionText]
    · rw [hvalue]
      simp only [fractionDigits, List.length_nil, List.length_singleton]
      omega
  | cons second others =>
    refine ⟨.other first hfirst [], some ⟨second, others⟩, e, ?_, rfl, ?_⟩
    · rw [htext]
      simp [scientific, digitsText, Whole.toList, fractionText, Digits.toList]
    · rw [hvalue]
      simp only [fractionDigits, Digits.toList, List.length_cons]
      omega

/-- Digits without the zeros at their end. -/
theorem exists_kept (ds : List Digit) :
    ∃ (kept : List Digit) (k : Nat), ds = kept ++ List.replicate k zeroDigit ∧
      ((ds.map Subtype.val).reverse.dropWhile (· == '0')).reverse = kept.map Subtype.val := by
  induction ds using List.reverseRecOn with
  | nil => exact ⟨[], 0, rfl, rfl⟩
  | append_singleton ds d ih =>
    have hreverse : ((ds ++ [d]).map Subtype.val).reverse =
        d.val :: (ds.map Subtype.val).reverse := by
      rw [List.map_append, List.reverse_append]
      rfl
    by_cases hd : d.val = '0'
    · obtain ⟨kept, k, hds, hkept⟩ := ih
      have hzero : d = zeroDigit := Subtype.ext hd
      refine ⟨kept, k + 1, ?_, ?_⟩
      · rw [hds, hzero, List.append_assoc, ← List.replicate_succ']
      · rw [hreverse, List.dropWhile_cons_of_pos (by simpa using hd), hkept]
    · refine ⟨ds ++ [d], 0, (List.append_nil _).symm, ?_⟩
      rw [hreverse, List.dropWhile_cons_of_neg (by simpa using hd), ← hreverse,
        List.reverse_reverse]

/-- The significant digits of a decimal with the place of their point are worth the decimal. -/
theorem exists_significant (d : Decimal) :
    ∃ ds : List Digit, d.significant.1 = ds.map Subtype.val ∧ Leads ds ∧
      (ds = [zeroDigit] → d.significant.2 = 1) ∧
      ∀ negative, ofDecimal negative (digitsNumber ds) (d.significant.2 - ds.length) =
        ofDecimal negative d.digits d.exponent := by
  by_cases hzero : d.digits = 0
  · have hpoint : d.significant = (['0'], 1) := by
      simp only [Decimal.significant, hzero]
      rfl
    rw [hpoint]
    refine ⟨[zeroDigit], rfl, Or.inl rfl, fun _ => rfl, fun negative => ?_⟩
    have hnumber : digitsNumber [zeroDigit] = 0 := rfl
    rw [hnumber, hzero, ofDecimal_eq, ofDecimal_eq, if_pos rfl, if_pos rfl]
  · obtain ⟨ds, hval, hleads, hnumber, -⟩ := exists_natural d.digits
    obtain ⟨kept, k, hds, hkept⟩ := exists_kept ds
    have hvalue : digitsNumber ds = digitsNumber kept * 10 ^ k := by
      rw [hds, digitsNumber_append_zeros]
    have hfirst : ∃ first others, kept = first :: others ∧ first.val ≠ '0' := by
      cases kept with
      | nil =>
        rw [hvalue] at hnumber
        exact absurd (hnumber.symm.trans (Nat.zero_mul _)) hzero
      | cons first others =>
        rcases hleads with hone | ⟨first', others', hcons, hne⟩
        · rw [hone] at hnumber
          exact absurd hnumber.symm hzero
        · rw [hds] at hcons
          have hsame : first = first' := (List.cons.inj hcons).1
          exact ⟨first, others, rfl, by rwa [hsame]⟩
    have hne : (kept.map Subtype.val).isEmpty = false := by
      obtain ⟨first, others, rfl, -⟩ := hfirst
      rfl
    have hsignificant : d.significant = (kept.map Subtype.val, (ds.length : Int) + d.exponent) := by
      simp only [Decimal.significant, ← hval, hkept, hne, Bool.false_eq_true, if_false, hzero,
        List.length_map]
    rw [hsignificant]
    refine ⟨kept, rfl, Or.inr hfirst, ?_, fun negative => ?_⟩
    · rintro rfl
      obtain ⟨first, others, hcons, hne⟩ := hfirst
      exact absurd (congrArg Subtype.val (List.cons.inj hcons).1).symm hne
    · have hpower : (ds.length : Int) + d.exponent - kept.length = d.exponent + k := by
        rw [hds, List.length_append, List.length_replicate]
        omega
      rw [hpower, ← hnumber, hvalue, ofDecimal_mul_pow]

/-- A finite floating-point number is written as a number that denotes it and is no integer. -/
theorem exists_float (negative : Bool) (rank : Fin magnitudes) :
    ∃ n : Number, n.text = writeNumber (.finite negative rank) ∧
      n.value = .float (.finite negative rank) ∧ n.integerLength = 0 := by
  obtain ⟨ds, hdigits, hleads, hzero, hworth⟩ := exists_significant (shortest rank.val)
  have hread := (hworth negative).trans (ofDecimal_shortest negative rank)
  have hsign : ∀ n : Number, n.negative = negative →
      n.signText = (if negative then ['-'] else []).map CodePoint.char := by
    rintro n rfl
    unfold Number.signText
    cases n.negative <;> rfl
  have hwritten : writeNumber (.finite negative rank) =
      (if negative then ['-'] else []).map CodePoint.char ++
        ((shortest rank.val).text).map CodePoint.char := by
    rw [writeNumber, Binary64.text, Text.ofString, String.toList_ofList, List.map_append]
  rw [hwritten, Decimal.text]
  simp only [hdigits]
  generalize (shortest rank.val).significant.2 = point at hzero hread ⊢
  by_cases hplace : -4 < point ∧ point ≤ 16
  · obtain ⟨whole, fraction, htext, hvalue⟩ := exists_positional hleads hzero
    refine ⟨⟨negative, whole, some fraction, none⟩, ?_, ?_, rfl⟩
    · rw [if_pos hplace, Number.text, hsign _ rfl, ← htext]
      simp [fractionText, exponentText]
    · show Value.float (ofDecimal negative _ (0 - _)) = _
      rw [Int.zero_sub]
      exact congrArg Value.float ((hvalue negative).trans hread)
  · have hfirst : ∃ first others, ds = first :: others ∧ first.val ≠ '0' := by
      rcases hleads with hone | hfirst
      · have := hzero hone
        omega
      · exact hfirst
    obtain ⟨first, others, rfl, hne⟩ := hfirst
    obtain ⟨whole, fraction, e, htext, hsame, hpower⟩ := exists_scientific hne others point
    refine ⟨⟨negative, whole, fraction, some e⟩, ?_, ?_, ?_⟩
    · rw [if_neg hplace, Number.text, hsign _ rfl, ← htext]
      simp [exponentText]
    · have hall : (Number.mk negative whole fraction (some e)).allDigits =
          digitsNumber (first :: others) := by
        rw [← hsame]
        rfl
      have hlast : (Number.mk negative whole fraction (some e)).power =
          point - (first :: others).length := hpower
      have hinteger : (Number.mk negative whole fraction (some e)).isInteger = false := by
        simp [Number.isInteger]
      rw [Number.value, hinteger, hall, hlast]
      exact congrArg Value.float hread
    · simp [Number.integerLength, Number.isInteger]

end TextTidy.Json
