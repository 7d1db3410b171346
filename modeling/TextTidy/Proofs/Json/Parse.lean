import TextTidy.Json.Report
import TextTidy.Proofs.Binary64.Nearest
import TextTidy.Proofs.Json.Dialect

/-!
# The reader accepts the grammar

What the reader takes from the start of a text is derived by the grammar and has the value that the
derivation denotes. With the other direction, a text has a value exactly if the grammar derives it
and no bound of the reader is exceeded.
-/

namespace TextTidy.Json

open Grammar

/-! ## Derivations -/

section Trees

variable {levels : Nat} {P : Text → Value → Prop} {body : Text}
  (hP : ∀ {body : Text} {v : Value}, P body v →
    ∃ t : Tree, t.text = body ∧ t.value = v ∧ t.Fits levels)

include hP

theorem exists_items {vs : List Value} (h : Listed P body vs) :
    ∃ its : Items, its.text = body ∧ its.values = vs ∧ its.Fits levels := by
  induction h with
  | last before behind h =>
    obtain ⟨t, rfl, rfl, hfits⟩ := hP h
    exact ⟨.last before t behind, rfl, rfl, hfits⟩
  | more before behind h _ ih =>
    obtain ⟨t, rfl, rfl, hfits⟩ := hP h
    obtain ⟨its, rfl, rfl, hothers⟩ := ih
    exact ⟨.more before t behind its, rfl, rfl, Items.fits_more.mpr ⟨hfits, hothers⟩⟩

theorem exists_members {pairs : List (Text × Value)} (h : Listed (Paired P) body pairs) :
    ∃ ms : Members, ms.text = body ∧ ms.pairs = pairs ∧ ms.Fits levels := by
  induction h with
  | last before behind h =>
    cases h with
    | mk key gap beforeItem h =>
      obtain ⟨t, rfl, rfl, hfits⟩ := hP h
      refine ⟨.last before key gap beforeItem t behind, ?_, rfl, hfits⟩
      simp [Members.text, keyText]
  | more before behind h _ ih =>
    cases h with
    | mk key gap beforeItem h =>
      obtain ⟨t, rfl, rfl, hfits⟩ := hP h
      obtain ⟨ms, rfl, rfl, hothers⟩ := ih
      refine ⟨.more before key gap beforeItem t behind ms, ?_, rfl,
        Members.fits_more.mpr ⟨hfits, hothers⟩⟩
      simp [Members.text, keyText]

end Trees

/-- What spells a value of strict JSON is derived by the grammar. -/
theorem exists_tree_of_spells {levels : Nat} {body : Text} {v : Value}
    (h : Spells .strict levels body v) :
    ∃ t : Tree, t.text = body ∧ t.value = v ∧ t.Fits levels := by
  have hscalar : ∀ {levels : Nat} {body : Text} {v : Value}, Scalar .strict body v →
      ∃ t : Tree, t.text = body ∧ t.value = v ∧ t.Fits levels := by
    intro levels body v h
    cases h with
    | tree h => exact ⟨_, rfl, rfl, Nat.le_trans h.1 (Nat.zero_le _), h.2⟩
    | constant h => cases h
  induction levels generalizing body v with
  | zero => exact hscalar h
  | succ levels ih =>
    rcases h with h | h
    · exact hscalar h
    · cases h with
      | emptyArray gap =>
        exact ⟨.emptyArray gap, rfl, rfl, Nat.succ_le_succ (Nat.zero_le _), Nat.zero_le _⟩
      | array h =>
        obtain ⟨its, rfl, rfl, hfits⟩ := exists_items ih h
        exact ⟨.array its, rfl, rfl, Tree.fits_array.mpr hfits⟩
      | emptyObject gap =>
        exact ⟨.emptyObject gap, rfl, rfl, Nat.succ_le_succ (Nat.zero_le _), Nat.zero_le _⟩
      | object h =>
        obtain ⟨ms, rfl, rfl, hfits⟩ := exists_members ih h
        exact ⟨.object ms, rfl, rfl, Tree.fits_object.mpr hfits⟩

/-- What the reader takes for a value is one that fits its bounds. -/
theorem exists_tree {levels : Nat} {s left : Text} {v : Value}
    (h : bare (value .strict levels s) = .ok (v, left)) :
    ∃ t : Tree, s = t.text ++ left ∧ t.value = v ∧ t.Fits levels := by
  obtain ⟨body, hs, hbody⟩ := (value_reads .strict levels).written h
  obtain ⟨t, rfl, hvalue, hfits⟩ := exists_tree_of_spells hbody
  exact ⟨t, hs, hvalue, hfits⟩

theorem exists_pair {levels : Nat} {s left : Text} {member : Text × Value}
    (h : bare (pair (value .strict levels) s) = .ok (member, left)) :
    ∃ key gap beforeItem, ∃ t : Tree,
      s = keyText [] key gap beforeItem ++ (t.text ++ left) ∧ (content key, t.value) = member ∧
        t.Fits levels := by
  obtain ⟨body, rfl, hbody⟩ := (value_reads .strict levels).paired.written h
  cases hbody with
  | mk key gap beforeItem hbody =>
    obtain ⟨t, rfl, rfl, hfits⟩ := exists_tree_of_spells hbody
    exact ⟨key, gap, beforeItem, t, List.append_assoc _ _ _, rfl, hfits⟩

/-! ## Documents -/

theorem document_split (d : Document) :
    d.text = spacing d.before ++ (d.tree.text ++ spacing d.behind) := by
  rw [Document.text, List.append_assoc]

/-- A document that fits the bounds is read as what it denotes. -/
theorem document_text (dialect : Dialect) {levels : Nat} {d : Document} (h : d.Fits levels) :
    document dialect levels d.text = .ok d.value := by
  have hskip : skipSpacing d.text = d.tree.text ++ spacing d.behind := by
    rw [document_split, skipSpacing_opens d.before (opens_tree d.tree _)]
  have hends : NumberEnds (spacing d.behind) := by
    have := numberEnds_spacing d.behind numberEnds_nil
    rwa [List.append_nil] at this
  have hbehind : skipSpacing (spacing d.behind) = [] := by
    have := skipSpacing_spacing d.behind []
    rwa [List.append_nil] at this
  have hmark : d.text.head? ≠ some byteOrderMark := by
    rw [document_split]
    exact (opens_tree d.tree _).head_ne_mark d.before
  rw [document_eq, if_neg hmark, hskip, value_tree d.tree h hends]
  show (if (skipSpacing (spacing d.behind)).isEmpty then Except.ok d.tree.value else _) = _
  rw [hbehind]
  rfl

theorem exists_document {levels : Nat} {s : Text} {v : Value}
    (h : document .strict levels s = .ok v) :
    ∃ d : Document, d.text = s ∧ d.value = v ∧ d.Fits levels := by
  obtain ⟨before, body, behind, rfl, hbody⟩ := document_eq_ok_iff.mp h
  obtain ⟨t, rfl, hvalue, hfits⟩ := exists_tree_of_spells hbody
  exact ⟨⟨before, t, behind⟩, rfl, hvalue, hfits⟩

/-- How a text is read, once it is known that there is something to read. -/
theorem parse_eq (levels : Nat) (s : Text) (h : (withoutMark s).isBlank = false) :
    parse levels s =
      match document .strict levels (withoutMark s) with
      | .ok value => .ok value
      | .error (.malformed flaw left) => .error (refusedAt s (.flaw flaw)
          (s.length - (withoutMark s).length + ((withoutMark s).length - left.length)))
      | .error (.constant word _) => .error (refusedAt s (.constant word)
          (s.length - (withoutMark s).length + constantOffset (withoutMark s)))
      | .error (.beyond limit) => .error (.beyond limit) := by
  simp only [parse, h]
  rfl

/-- A text has a value exactly if the grammar derives what follows its byte order mark, within the
    bounds of the reader; the value is the one that the derivation denotes. -/
theorem parse_eq_ok_iff {levels : Nat} {s : Text} {v : Value} :
    parse levels s = .ok v ↔
      ∃ d : Document, d.text = withoutMark s ∧ d.value = v ∧ d.Fits levels := by
  constructor
  · intro h
    cases hblank : (withoutMark s).isBlank with
    | true =>
      simp only [parse, hblank, if_true] at h
      cases h
    | false =>
      rw [parse_eq levels s hblank] at h
      split at h
      · rename_i hdocument
        cases h
        exact exists_document hdocument
      all_goals cases h
  · rintro ⟨d, hd, rfl, hfits⟩
    have hblank : (withoutMark s).isBlank = false := by
      rw [← hd, document_split]
      exact (opens_tree d.tree _).not_isBlank d.before
    rw [parse_eq levels s hblank, ← hd, document_text .strict hfits]

/-! ## Bounds -/

theorem length_digitsText (digits : List Digit) : (digitsText digits).length = digits.length := by
  simp [digitsText]

mutual

/-- A text is as long as the value in it is deep, and as its longest integer. -/
theorem tree_bounds : ∀ t : Tree, t.depth ≤ t.text.length ∧ t.longestInteger ≤ t.text.length
  | .null => ⟨Nat.zero_le _, Nat.zero_le _⟩
  | .bool _ => ⟨Nat.zero_le _, Nat.zero_le _⟩
  | .string _ => ⟨Nat.zero_le _, Nat.zero_le _⟩
  | .number n => by
    have hlength : n.integerLength ≤ n.text.length := by
      unfold Number.integerLength
      split
      · simp only [Number.text, List.length_append, length_digitsText]
        omega
      · exact Nat.zero_le _
    exact ⟨Nat.zero_le _, hlength⟩
  | .emptyArray gap => by simp [Tree.depth, Tree.longestInteger, Tree.text]
  | .emptyObject gap => by simp [Tree.depth, Tree.longestInteger, Tree.text]
  | .array items => by
    have := items_bounds items
    simp only [Tree.depth, Tree.longestInteger, Tree.text, List.length_append, List.length_cons]
    omega
  | .object members => by
    have := members_bounds members
    simp only [Tree.depth, Tree.longestInteger, Tree.text, List.length_append, List.length_cons]
    omega

theorem items_bounds :
    ∀ its : Items, its.depth ≤ its.text.length ∧ its.longestInteger ≤ its.text.length
  | .last before item behind => by
    have := tree_bounds item
    simp only [Items.depth, Items.longestInteger, Items.text, List.length_append]
    omega
  | .more before item behind others => by
    have := tree_bounds item
    have := items_bounds others
    simp only [Items.depth, Items.longestInteger, Items.text, List.length_append, List.length_cons]
    omega

theorem members_bounds :
    ∀ ms : Members, ms.depth ≤ ms.text.length ∧ ms.longestInteger ≤ ms.text.length
  | .last before key behindKey beforeItem item behind => by
    have := tree_bounds item
    simp only [Members.depth, Members.longestInteger, Members.text, List.length_append]
    omega
  | .more before key behindKey beforeItem item behind others => by
    have := tree_bounds item
    have := members_bounds others
    simp only [Members.depth, Members.longestInteger, Members.text, List.length_append,
      List.length_cons]
    omega

end

/-- A short text exceeds no bound. -/
theorem fits_of_length {levels : Nat} {d : Document} (hlevels : d.text.length ≤ levels)
    (hdigits : d.text.length ≤ Text.maxIntegerDigits) : d.Fits levels := by
  have hbounds := tree_bounds d.tree
  simp only [Document.text, List.length_append] at hlevels hdigits
  constructor <;> omega

/-- A number with a point or an exponent denotes the floating-point number it is rounded to. -/
theorem exists_roundsTo {n : Number} (h : n.isInteger = false) :
    ∃ rank, Binary64.RoundsTo (n.allDigits * 10 ^ n.power.toNat) (10 ^ (-n.power).toNat) rank ∧
      n.value = .float (Binary64.ofRank n.negative rank) := by
  refine ⟨_, Binary64.roundsTo_nearestRank _ (Nat.pow_pos (by decide)), ?_⟩
  rw [Number.value, h, Binary64.ofDecimal_eq_ofRank]
  rfl

/-- A text of which no derivation exceeds a bound of the reader has a value exactly if the
    grammar derives what follows its byte order mark, and its value is the one that any derivation
    denotes, where a number that is no integer denotes the nearest floating-point number. -/
theorem parse_iff_derivable (levels : Nat) (s : Text)
    (h : ∀ d : Document, d.text = withoutMark s → d.Fits levels) :
    ((∃ v, parse levels s = .ok v) ↔ ∃ d : Document, d.text = withoutMark s) ∧
      (∀ d : Document, d.text = withoutMark s → parse levels s = .ok d.value) ∧
      ∀ n : Number, n.isInteger = false → ∃ rank,
        Binary64.RoundsTo (n.allDigits * 10 ^ n.power.toNat) (10 ^ (-n.power).toNat) rank ∧
          n.value = .float (Binary64.ofRank n.negative rank) := by
  have hvalue : ∀ d : Document, d.text = withoutMark s → parse levels s = .ok d.value := by
    intro d hd
    exact parse_eq_ok_iff.mpr ⟨d, hd, rfl, h d hd⟩
  refine ⟨⟨?_, ?_⟩, hvalue, fun n => exists_roundsTo⟩
  · rintro ⟨v, hv⟩
    obtain ⟨d, hd, -, -⟩ := parse_eq_ok_iff.mp hv
    exact ⟨d, hd⟩
  · rintro ⟨d, hd⟩
    exact ⟨d.value, hvalue d hd⟩

/-- An object that gives a key twice, behind a byte order mark. -/
theorem parse_iff_derivable_repeated_key :
    (∀ d : Document, d.text = Text.ofString "\x7b\"k\":1 ,\"k\":20\x7d" → d.Fits 950) ∧
      parse 950 (byteOrderMark :: Text.ofString "\x7b\"k\":1 ,\"k\":20\x7d") =
        .ok (.obj [(Text.ofString "k", .int 20)]) := by
  have hfits : ∀ d : Document,
      d.text = Text.ofString "\x7b\"k\":1 ,\"k\":20\x7d" → d.Fits 950 := by
    intro d hd
    have hlength : d.text.length = 15 := by rw [hd]; rfl
    exact fits_of_length (by omega) (by rw [hlength]; decide)
  let k : Character := .plain (.char 'k') (by decide) (by decide) (by decide)
  let one : Tree := .number ⟨false, .other ⟨'1', rfl⟩ (by decide) [], none, none⟩
  let twenty : Tree := .number ⟨false, .other ⟨'2', rfl⟩ (by decide) [⟨'0', rfl⟩], none, none⟩
  have hvalue := (parse_iff_derivable 950
    (byteOrderMark :: Text.ofString "\x7b\"k\":1 ,\"k\":20\x7d") hfits).2.1
    ⟨[], .object (.more [] [k] [] [] one [.blank] (.last [] [k] [] [] twenty [])), []⟩ rfl
  exact ⟨hfits, hvalue⟩

/-! ## Single values -/

theorem withoutMark_opens {s : Text} (h : Opens s) : withoutMark s = s := by
  cases s with
  | nil => rfl
  | cons c rest =>
    have hmark : c ≠ byteOrderMark := by
      rintro rfl
      exact h.head_ne_mark [] rfl
    rw [withoutMark, if_neg hmark]

/-- A value with nothing around it is read as what its derivation denotes. -/
theorem parse_tree {levels : Nat} {t : Tree} (h : t.Fits levels) :
    parse levels t.text = .ok t.value := by
  have htext : (Document.mk [] t []).text = t.text := by
    rw [Document.text, spacing_nil, List.nil_append, List.append_nil]
  have hopens : Opens t.text := by
    rw [← List.append_nil t.text]
    exact opens_tree t []
  exact parse_eq_ok_iff.mpr ⟨⟨[], t, []⟩, by rw [htext, withoutMark_opens hopens], rfl, h⟩

/-- A number with a point or an exponent is read as a finite number exactly if that is the one it is
    rounded to. -/
theorem parse_number_finite_iff {levels : Nat} {n : Number} (h : n.isInteger = false)
    {negative : Bool} {rank : Fin Binary64.magnitudes} :
    parse levels n.text = .ok (.float (.finite negative rank)) ↔
      n.negative = negative ∧
        Binary64.RoundsTo (n.allDigits * 10 ^ n.power.toNat) (10 ^ (-n.power).toNat) rank.val := by
  have hfits : (Tree.number n).Fits levels := by
    refine ⟨Nat.zero_le _, ?_⟩
    rw [Tree.longestInteger, Number.integerLength, h]
    exact Nat.zero_le _
  have hread : parse levels n.text =
      .ok (.float (Binary64.ofDecimal n.negative n.allDigits n.power)) := by
    have hvalue : n.value = .float (Binary64.ofDecimal n.negative n.allDigits n.power) := by
      rw [Number.value, h]
      rfl
    rw [← hvalue]
    exact parse_tree hfits
  rw [hread, Except.ok.injEq, Value.float.injEq, Binary64.ofDecimal_finite_iff]

end TextTidy.Json
