import TextTidy.Proofs.Json.Limit
import TextTidy.Proofs.Json.Written

/-!
# What formatting makes of a text

A value that was read can be written, and what is written has the same value again, unless a number
in it is too large to be finite. Such a number is written as a word that strict JSON does not have.
-/

namespace TextTidy.Json

open Grammar

/-! ## Values that were read -/

theorem ofDecimal_ne_nan (negative : Bool) (digits : Nat) (exponent : Int) :
    Binary64.ofDecimal negative digits exponent ≠ .nan := by
  rw [Binary64.ofDecimal_eq_ofRank]
  unfold Binary64.ofRank
  split <;> exact fun heq => by cases heq

theorem regular_number {n : Number} (h : n.integerLength ≤ Text.maxIntegerDigits) :
    n.value.Regular := by
  unfold Number.value
  cases hinteger : n.isInteger with
  | false => exact ofDecimal_ne_nan _ _ _
  | true =>
    have hfraction : n.fraction = none := by
      rw [Number.isInteger, Bool.and_eq_true] at hinteger
      exact Option.isNone_iff_eq_none.mp hinteger.1
    have hall : n.allDigits = digitsNumber n.whole.toList := by
      rw [Number.allDigits, hfraction, fractionDigits, List.append_nil]
      rfl
    have hne : 0 < n.whole.toList.length := by
      cases n.whole <;> exact Nat.succ_pos _
    have hcount : Binary64.digitCount n.allDigits ≤ n.whole.toList.length := by
      rw [hall]
      exact (Binary64.digitCount_le_iff hne).mpr (digitsNumber_lt _)
    rw [Number.integerLength, hinteger, if_pos rfl] at h
    have habs : (if n.negative = true then -(n.allDigits : Int) else n.allDigits).natAbs =
        n.allDigits := by
      split <;> simp
    show Binary64.digitCount (Int.natAbs _) ≤ _
    rw [habs]
    exact Nat.le_trans hcount h

/-- What holds of every part of every item holds of every part of the array, if it holds of the
    array. -/
theorem part_list {P : Value → Prop} {items : List Value} (hlist : P (.list items))
    (h : ∀ v ∈ items, ∀ w, Part w v → P w) : ∀ w, Part w (.list items) → P w := by
  intro w hw
  cases hw with
  | self => exact hlist
  | item hv hw => exact h _ hv w hw

theorem part_obj {P : Value → Prop} {members : List (Text × Value)} (hobj : P (.obj members))
    (h : ∀ m ∈ members, ∀ w, Part w m.2 → P w) : ∀ w, Part w (.obj members) → P w := by
  intro w hw
  cases hw with
  | self => exact hobj
  | member hm hw => exact h _ hm w hw

theorem part_scalar {P : Value → Prop} {v : Value} (hv : P v) (hlist : ∀ items, v ≠ .list items)
    (hobj : ∀ members, v ≠ .obj members) : ∀ w, Part w v → P w := by
  intro w hw
  cases hw with
  | self => exact hv
  | item hv hw => exact absurd rfl (hlist _)
  | member hm hw => exact absurd rfl (hobj _)

mutual

/-- What a derivation within the bounds of the reader denotes can be written, and is no deeper. -/
theorem tree_regular : ∀ t : Tree, t.longestInteger ≤ Text.maxIntegerDigits →
    (∀ w, Part w t.value → w.Regular) ∧ t.value.depth ≤ t.depth
  | .null, _ => ⟨part_scalar trivial (by simp [Tree.value]) (by simp [Tree.value]), Nat.le_refl _⟩
  | .bool _, _ => ⟨part_scalar trivial (by simp [Tree.value]) (by simp [Tree.value]), Nat.le_refl _⟩
  | .string _, _ =>
    ⟨part_scalar trivial (by simp [Tree.value]) (by simp [Tree.value]), Nat.le_refl _⟩
  | .number n, h => by
    have hvalue := regular_number h
    have hcases : (∃ z, n.value = .int z) ∨ ∃ x, n.value = .float x := by
      unfold Number.value
      split
      · exact Or.inl ⟨_, rfl⟩
      · exact Or.inr ⟨_, rfl⟩
    show (∀ w, Part w n.value → w.Regular) ∧ n.value.depth ≤ 0
    rcases hcases with ⟨z, hz⟩ | ⟨x, hx⟩
    · rw [hz] at hvalue ⊢
      exact ⟨part_scalar hvalue (by simp) (by simp), Nat.le_refl _⟩
    · rw [hx] at hvalue ⊢
      exact ⟨part_scalar hvalue (by simp) (by simp), Nat.le_refl _⟩
  | .emptyArray _, _ => ⟨part_list trivial (by simp), Nat.le_refl _⟩
  | .emptyObject _, _ => ⟨part_obj List.nodup_nil (by simp), Nat.le_refl _⟩
  | .array items, h => by
    have hitems := items_regular items h
    have hdepth : (Value.list items.values).depth ≤ items.depth + 1 :=
      Value.depth_list_le.mpr fun v hv => (hitems v hv).2
    exact ⟨part_list trivial fun v hv => (hitems v hv).1, hdepth⟩
  | .object members, h => by
    have hmembers : ∀ m ∈ settled members.pairs,
        (∀ w, Part w m.2 → w.Regular) ∧ m.2.depth ≤ members.depth := by
      intro m hm
      rw [← members_eq_settled] at hm
      exact members_regular members h m (mem_of_mem_members hm)
    have hkeys : ((settled members.pairs).map Prod.fst).Nodup := by
      rw [← members_eq_settled]
      exact nodup_members _
    have hdepth : (Value.obj (settled members.pairs)).depth ≤ members.depth + 1 :=
      Value.depth_obj_le.mpr fun m hm => (hmembers m hm).2
    exact ⟨part_obj hkeys fun m hm => (hmembers m hm).1, hdepth⟩

theorem items_regular : ∀ its : Items, its.longestInteger ≤ Text.maxIntegerDigits →
    ∀ v ∈ its.values, (∀ w, Part w v → w.Regular) ∧ v.depth ≤ its.depth
  | .last _ item _, h, v, hv => by
    rw [List.mem_singleton.mp hv]
    exact tree_regular item h
  | .more _ item _ others, h, v, hv => by
    obtain ⟨hitem, hothers⟩ := Nat.max_le.mp h
    rcases List.mem_cons.mp hv with rfl | hin
    · obtain ⟨hparts, hdepth⟩ := tree_regular item hitem
      exact ⟨hparts, Nat.le_trans hdepth (Nat.le_max_left _ _)⟩
    · obtain ⟨hparts, hdepth⟩ := items_regular others hothers v hin
      exact ⟨hparts, Nat.le_trans hdepth (Nat.le_max_right _ _)⟩

theorem members_regular : ∀ ms : Members, ms.longestInteger ≤ Text.maxIntegerDigits →
    ∀ m ∈ ms.pairs, (∀ w, Part w m.2 → w.Regular) ∧ m.2.depth ≤ ms.depth
  | .last _ _ _ _ item _, h, m, hm => by
    rw [List.mem_singleton.mp hm]
    exact tree_regular item h
  | .more _ _ _ _ item _ others, h, m, hm => by
    obtain ⟨hitem, hothers⟩ := Nat.max_le.mp h
    rcases List.mem_cons.mp hm with rfl | hin
    · obtain ⟨hparts, hdepth⟩ := tree_regular item hitem
      exact ⟨hparts, Nat.le_trans hdepth (Nat.le_max_left _ _)⟩
    · obtain ⟨hparts, hdepth⟩ := members_regular others hothers m hin
      exact ⟨hparts, Nat.le_trans hdepth (Nat.le_max_right _ _)⟩

end

/-- A value that was read can be written. -/
theorem parse_regular {levels : Nat} {s : Text} {v : Value} (h : parse levels s = .ok v) :
    (∀ w, Part w v → w.Regular) ∧ v.depth ≤ levels := by
  obtain ⟨d, -, rfl, hdepth, hlong⟩ := parse_eq_ok_iff.mp h
  obtain ⟨hregular, hle⟩ := tree_regular d.tree hlong
  exact ⟨hregular, Nat.le_trans hle hdepth⟩

/-! ## Infinities -/

theorem writeItems_append (indent depth : Nat) (front back : List Value) :
    writeItems indent depth (front ++ back) =
      writeItems indent depth front ++ writeItems indent depth back := by
  induction front with
  | nil => rw [List.nil_append, writeItems, List.nil_append]
  | cons v front ih =>
    rw [List.cons_append, writeItems, writeItems, ih]
    simp

theorem writeMembers_append (indent depth : Nat) (front back : List (Text × Value)) :
    writeMembers indent depth (front ++ back) =
      writeMembers indent depth front ++ writeMembers indent depth back := by
  induction front with
  | nil => rw [List.nil_append, writeMembers, List.nil_append]
  | cons m front ih =>
    obtain ⟨key, v⟩ := m
    rw [List.cons_append, writeMembers, writeMembers, ih]
    simp

/-- The first element of which something is not the case, behind those of which it is. -/
theorem exists_first_not {α : Type} {P : α → Prop} {as : List α} (h : ¬ ∀ a ∈ as, P a) :
    ∃ front a back, as = front ++ a :: back ∧ (∀ b ∈ front, P b) ∧ ¬ P a := by
  induction as with
  | nil => exact absurd (by simp) h
  | cons a as ih =>
    by_cases ha : P a
    · have hothers : ¬ ∀ b ∈ as, P b := fun hall => h (List.forall_mem_cons.mpr ⟨ha, hall⟩)
      obtain ⟨front, b, back, rfl, hfront, hb⟩ := ih hothers
      exact ⟨a :: front, b, back, rfl, List.forall_mem_cons.mpr ⟨ha, hfront⟩, hb⟩
    · exact ⟨[], a, as, rfl, by simp, ha⟩

/-- The word that an infinity of a sign is written as. -/
def infinityWord (negative : Bool) : Constant := if negative then .negativeInfinity else .infinity

theorem head_infinity (negative : Bool) (rest : Text) {c : Char} (hletter : c ≠ 'I')
    (hminus : c ≠ '-') :
    (Text.ofString (infinityWord negative).name ++ rest).head? ≠ some (.char c) := by
  intro heq
  cases negative with
  | false =>
    injection Option.some.inj heq with h
    exact hletter h.symm
  | true =>
    injection Option.some.inj heq with h
    exact hminus h.symm

theorem value_infinity (levels : Nat) (negative : Bool) (rest : Text) :
    bare (value .strict levels (Text.ofString (infinityWord negative).name ++ rest)) =
      .error (.constant (infinityWord negative)
        (Text.ofString (infinityWord negative).name ++ rest)) := by
  have hhead : ∀ {c : Char}, c ≠ 'I' → c ≠ '-' →
      (Text.ofString (infinityWord negative).name ++ rest).head? ≠ some (.char c) :=
    head_infinity negative rest
  rw [value_scalar (hhead (by decide) (by decide)) (hhead (by decide) (by decide)),
    scalar_other .strict (hhead (by decide) (by decide))]
  cases negative <;> rfl

theorem opens_infinity (negative : Bool) (rest : Text) :
    Opens (Text.ofString (infinityWord negative).name ++ rest) := by
  cases negative <;> exact opens_char (by decide) _

/-- Whether a text leads the reader to a word for an infinity. -/
def LeadsToInfinity (levels : Nat) (s : Text) : Prop :=
  ∃ negative behind,
    Reached (fun _ t => t = Text.ofString (infinityWord negative).name ++ behind) levels s

variable {indent levels depth : Nat}

theorem LeadsToInfinity.inside {s : Text} (h : LeadsToInfinity levels s) {o : Opening}
    (hfits : o.Fits levels) : LeadsToInfinity (levels + 1) (o.text ++ s) := by
  obtain ⟨negative, behind, hreached⟩ := h
  exact ⟨negative, behind, Reached.inside o hfits hreached⟩

theorem finite_scalar {v : Value} (hfloat : ∀ negative, v ≠ .float (.infinite negative))
    (hlist : ∀ items, v ≠ .list items) (hobj : ∀ members, v ≠ .obj members) : v.Finite := by
  intro negative hpart
  have hall : ∀ w, Part w v → w ≠ .float (.infinite negative) :=
    part_scalar (hfloat negative) hlist hobj
  exact hall _ hpart rfl

theorem finite_list {items : List Value} (h : ∀ v ∈ items, v.Finite) :
    (Value.list items).Finite := by
  intro negative hpart
  cases hpart with
  | item hv hw => exact h _ hv negative hw

theorem finite_obj {members : List (Text × Value)} (h : ∀ m ∈ members, m.2.Finite) :
    (Value.obj members).Finite := by
  intro negative hpart
  cases hpart with
  | member hm hw => exact h _ hm negative hw

/-- The first item with an infinity in it is reached behind items that are read. -/
theorem leadsToInfinity_list {front back : List Value} {v : Value} {rest : Text}
    (hfront : ∀ u ∈ front, Derivable indent levels (depth + 1) u)
    (hv : ∀ rest, LeadsToInfinity levels (write indent (depth + 1) v ++ rest)) :
    LeadsToInfinity (levels + 1) (write indent depth (.list (front ++ v :: back)) ++ rest) := by
  have hinside := hv (writeItems indent (depth + 1) back ++
    (lineBreak indent depth ++ .char ']' :: rest))
  cases front with
  | nil =>
    have htext : write indent depth (.list (v :: back)) ++ rest =
        (Opening.array none (lineGap indent (depth + 1))).text ++
          (write indent (depth + 1) v ++ (writeItems indent (depth + 1) back ++
            (lineBreak indent depth ++ .char ']' :: rest))) := by
      rw [write, Opening.text, spacing_lineGap]
      simp
    rw [List.nil_append, htext]
    exact hinside.inside (by simp [Opening.Fits])
  | cons item front =>
    obtain ⟨its, hits, -, hfits⟩ := exists_written_items [] hfront
    have htext : write indent depth (.list (item :: (front ++ v :: back))) ++ rest =
        (Opening.array (some its) (lineGap indent (depth + 1))).text ++
          (write indent (depth + 1) v ++ (writeItems indent (depth + 1) back ++
            (lineBreak indent depth ++ .char ']' :: rest))) := by
      rw [write, writeItems_append, writeItems, Opening.text, hits, spacing_lineGap]
      simp
    rw [List.cons_append, htext]
    refine hinside.inside ?_
    rintro its' hsome
    cases hsome
    exact hfits

/-- The first member with an infinity in it is reached behind members that are read. -/
theorem leadsToInfinity_obj {front back : List (Text × Value)} {key : Text} {v : Value}
    {rest : Text} (hfront : ∀ m ∈ front, Derivable indent levels (depth + 1) m.2)
    (hv : ∀ rest, LeadsToInfinity levels (write indent (depth + 1) v ++ rest)) :
    LeadsToInfinity (levels + 1)
      (write indent depth (.obj (front ++ (key, v) :: back)) ++ rest) := by
  have hinside := hv (writeMembers indent (depth + 1) back ++
    (lineBreak indent depth ++ .char '}' :: rest))
  obtain ⟨cs, hkey, -⟩ := exists_written_string key
  cases front with
  | nil =>
    have htext : write indent depth (.obj ((key, v) :: back)) ++ rest =
        (Opening.object none (lineGap indent (depth + 1)) cs [] [.blank]).text ++
          (write indent (depth + 1) v ++ (writeMembers indent (depth + 1) back ++
            (lineBreak indent depth ++ .char '}' :: rest))) := by
      rw [write, Opening.text, keyText, spacing_lineGap, hkey]
      simp [spacing, Space.char]
    rw [List.nil_append, htext]
    exact hinside.inside (by simp [Opening.Fits])
  | cons m front =>
    obtain ⟨key', v'⟩ := m
    obtain ⟨ms, hms, -, hfits⟩ := exists_written_members [] hfront
    have htext : write indent depth (.obj ((key', v') :: (front ++ (key, v) :: back))) ++ rest =
        (Opening.object (some ms) (lineGap indent (depth + 1)) cs [] [.blank]).text ++
          (write indent (depth + 1) v ++ (writeMembers indent (depth + 1) back ++
            (lineBreak indent depth ++ .char '}' :: rest))) := by
      rw [write, writeMembers_append, writeMembers, Opening.text, hms, keyText, spacing_lineGap,
        hkey]
      simp [spacing, Space.char]
    rw [List.cons_append, htext]
    refine hinside.inside ?_
    rintro ms' hsome
    cases hsome
    exact hfits

/-- A value with an infinity in it is written as a text that leads to a word for one. -/
theorem leadsToInfinity_write {v : Value} (hregular : ∀ w, Part w v → w.Regular)
    (hinfinite : ¬ v.Finite) (hdepth : v.depth ≤ levels) (rest : Text) :
    LeadsToInfinity levels (write indent depth v ++ rest) := by
  induction v using Value.induction generalizing levels depth rest with
  | null => exact (hinfinite (finite_scalar (by simp) (by simp) (by simp))).elim
  | bool b => exact (hinfinite (finite_scalar (by simp) (by simp) (by simp))).elim
  | int z => exact (hinfinite (finite_scalar (by simp) (by simp) (by simp))).elim
  | str s => exact (hinfinite (finite_scalar (by simp) (by simp) (by simp))).elim
  | float x =>
    cases x with
    | finite negative rank => exact (hinfinite (finite_scalar (by simp) (by simp) (by simp))).elim
    | nan => exact (hinfinite (finite_scalar (by simp) (by simp) (by simp))).elim
    | infinite negative =>
      refine ⟨negative, rest, Reached.here ?_⟩
      cases negative <;> rfl
  | list items ih =>
    obtain ⟨levels, rfl, hitems⟩ := Value.depth_list_cases hdepth
    have hparts : ∀ v ∈ items, ∀ w, Part w v → w.Regular := fun v hv w hw =>
      hregular w (.item hv hw)
    obtain ⟨front, v, back, rfl, hfront, hv⟩ := exists_first_not (mt finite_list hinfinite)
    have hmem : v ∈ front ++ v :: back := by simp
    refine leadsToInfinity_list ?_ fun rest => ih v hmem (hparts v hmem) hv (hitems v hmem) rest
    intro u hu
    have hin := List.mem_append_left (v :: back) hu
    exact derivable_of_regular (hparts u hin) (hfront u hu) (hitems u hin)
  | obj members ih =>
    obtain ⟨levels, rfl, hmembers⟩ := Value.depth_obj_cases hdepth
    have hparts : ∀ m ∈ members, ∀ w, Part w m.2 → w.Regular := fun m hm w hw =>
      hregular w (.member hm hw)
    obtain ⟨front, m, back, rfl, hfront, hv⟩ := exists_first_not (mt finite_obj hinfinite)
    have hmem : m ∈ front ++ m :: back := by simp
    obtain ⟨key, v⟩ := m
    refine leadsToInfinity_obj ?_ fun rest => ih _ hmem (hparts _ hmem) hv (hmembers _ hmem) rest
    intro m hm
    have hin := List.mem_append_left ((key, v) :: back) hm
    exact derivable_of_regular (hparts m hin) (hfront m hm) (hmembers m hin)

/-! ## Reading what formatting gives -/

/-- A value with an infinity in it is written as a text that is refused. -/
theorem parse_layOut_infinite {levels : Nat} {v : Value} (hregular : ∀ w, Part w v → w.Regular)
    (hinfinite : ¬ v.Finite) (hdepth : v.depth ≤ levels) (indent : Int) :
    ∃ reason, parse levels (layOut indent v) = .error (.refused reason) := by
  have hleads := @leadsToInfinity_write indent.toNat levels 0 v hregular hinfinite hdepth []
  rw [List.append_nil] at hleads
  obtain ⟨negative, behind, hreached⟩ := hleads
  have hword : ∀ (_ : Nat) (s : Text),
      s = Text.ofString (infinityWord negative).name ++ behind → Opens s := by
    rintro levels s rfl
    exact opens_infinity negative behind
  have hopens := hreached.opens hword
  have hread : document .strict levels (layOut indent v) = .error (.constant (infinityWord negative)
      (Text.ofString (infinityWord negative).name ++ behind)) := by
    refine document_reached hword ?_ [] hreached
    rintro levels s rfl
    exact value_infinity levels negative behind
  have hmark : withoutMark (layOut indent v) = layOut indent v := withoutMark_opens hopens
  have hblank : (withoutMark (layOut indent v)).isBlank = false := by
    rw [hmark]
    exact hopens.not_isBlank []
  rw [parse_eq _ _ hblank, hmark, hread]
  exact ⟨_, rfl⟩

theorem report_not_ok (reason : Refusal) : reason.report.ok = false := by
  cases reason <;> rfl

/-- A successful formatting lays out the value of the text. The output is JSON again, and then has
    the same value, exactly if no number in that value is infinite. -/
theorem format_output_iff (levels : Nat) (s : Text) (indent : Int) (report : Report)
    (h : format levels indent s = .ok report) (hok : report.ok = true) :
    ∃ v, parse levels s = .ok v ∧ report.output = layOut indent v ∧
      (∃ verdict, validate levels report.output = .ok verdict ∧ (verdict.ok = true ↔ v.Finite)) ∧
      (parse levels report.output = .ok v ↔ v.Finite) := by
  have hvalue : ∃ v, parse levels s = .ok v ∧ report.output = layOut indent v := by
    unfold format reportWith at h
    split at h
    · rename_i v hread
      cases h
      exact ⟨v, hread, rfl⟩
    · rename_i reason hread
      cases h
      rw [report_not_ok] at hok
      cases hok
    · cases h
  obtain ⟨v, hread, houtput⟩ := hvalue
  obtain ⟨hregular, hdepth⟩ := parse_regular hread
  rw [houtput]
  refine ⟨v, hread, rfl, ?_⟩
  by_cases hfinite : v.Finite
  · obtain ⟨hback, -⟩ := parse_layOut levels v hregular hfinite hdepth indent
    refine ⟨⟨⟨true, "JSON is valid.", [], none⟩, ?_, fun _ => hfinite, fun _ => rfl⟩,
      fun _ => hfinite, fun _ => hback⟩
    rw [validate, reportWith, hback]
  · obtain ⟨reason, hrefused⟩ := parse_layOut_infinite hregular hfinite hdepth indent
    refine ⟨⟨reason.report, ?_, ?_, fun h => absurd h hfinite⟩, ?_, fun h => absurd h hfinite⟩
    · rw [validate, reportWith, hrefused]
    · intro hreport
      rw [report_not_ok] at hreport
      cases hreport
    · intro hback
      rw [hrefused] at hback
      cases hback

/-- An array of one integer. -/
theorem format_output_iff_one_item :
    format 950 2 (Text.ofString "[1 ]") =
        .ok ⟨true, "JSON formatted successfully.", Text.ofString "[\n  1\n]", none⟩ ∧
      ∃ verdict, validate 950 (Text.ofString "[\n  1\n]") = .ok verdict ∧ verdict.ok = true := by
  have hone : parse 950 (Text.ofString "[1 ]") = .ok (.list [.int 1]) := by
    let one : Number := ⟨false, .other ⟨'1', rfl⟩ (by decide) [], none, none⟩
    let d : Document := ⟨[], .array (.last [] (.number one) [.blank]), []⟩
    exact parse_eq_ok_iff.mpr ⟨d, rfl, rfl, fits_of_length (by decide) (by decide)⟩
  have hformat : format 950 2 (Text.ofString "[1 ]") =
      .ok ⟨true, "JSON formatted successfully.", Text.ofString "[\n  1\n]", none⟩ := by
    rw [format, reportWith, hone]
    rfl
  have hfinite : (Value.list [.int 1]).Finite := by
    refine finite_list fun v hv => ?_
    rw [List.mem_singleton.mp hv]
    exact finite_scalar (by simp) (by simp) (by simp)
  obtain ⟨v, hread, -, ⟨verdict, hvalidate, hverdict⟩, -⟩ := format_output_iff _ _ _ _ hformat rfl
  rw [hone] at hread
  cases hread
  exact ⟨hformat, verdict, hvalidate, hverdict.mpr hfinite⟩

/-- A number beyond the range of finite ones is formatted as a word that is no JSON. -/
theorem large_number_formatted_as_word :
    ∃ report, format 950 2 (Text.ofString "1e999") = .ok report ∧ report.ok = true ∧
      ∃ verdict, validate 950 report.output = .ok verdict ∧ verdict.ok = false := by
  let nine : Digit := ⟨'9', rfl⟩
  let large : Number :=
    ⟨false, .other ⟨'1', rfl⟩ (by decide) [], none, some ⟨false, none, ⟨nine, [nine, nine]⟩⟩⟩
  have hread : parse 950 (Text.ofString "1e999") = .ok (.float (.infinite false)) := by
    have hlarge : large.value = .float (.infinite false) := by
      show Value.float (Binary64.ofDecimal false 1 999) = _
      rw [Binary64.ofDecimal_eq]
      rfl
    exact parse_eq_ok_iff.mpr ⟨⟨[], .number large, []⟩, rfl, hlarge,
      fits_of_length (by decide) (by decide)⟩
  have hregular : ∀ w, Part w (.float (.infinite false)) → w.Regular :=
    part_scalar (fun heq => by cases heq) (by simp) (by simp)
  have hinfinite : ¬ (Value.float (.infinite false)).Finite := fun h => h false (Part.self _)
  obtain ⟨reason, hrefused⟩ := parse_layOut_infinite hregular hinfinite (Nat.zero_le 950) 2
  refine ⟨⟨true, "JSON formatted successfully.", layOut 2 (.float (.infinite false)), none⟩, ?_,
    rfl, reason.report, ?_, report_not_ok reason⟩
  · rw [format, reportWith, hread]
  · rw [validate, reportWith, hrefused]

end TextTidy.Json
