import TextTidy.Proofs.Binary64.Shortest
import TextTidy.Proofs.Json.Numeral
import TextTidy.Proofs.Json.Parse
import TextTidy.Proofs.Json.Part

/-!
# What is written is read back

A value is laid out as a text that the grammar derives, with a derivation that denotes the value.
-/

namespace TextTidy.Json

open Grammar

/-! ## Strings -/

def hexDigitOf (value : Fin 16) : HexDigit :=
  ⟨Nat.digitChar value, value, by revert value; decide⟩

/-- The four digits of the number of a control character. -/
def controlDigits (n : Fin 32) : HexDigits :=
  ⟨hexDigitOf 0, hexDigitOf 0, hexDigitOf ⟨n / 16, by omega⟩, hexDigitOf ⟨n % 16, by omega⟩⟩

theorem controlDigits_text :
    ∀ n : Fin 32, (controlDigits n).text = (Text.hexDigits 4 n).map CodePoint.char := by decide

theorem controlDigits_point :
    ∀ n : Fin 32, (controlDigits n).point = .char (Char.ofNat n) := by decide

/-- A numeric escape that names a character stands for it, whatever follows. -/
theorem content_numeric {digits : HexDigits} {c : Char} (h : digits.point = .char c)
    (cs : List Character) :
    content (.numeric digits :: cs) = .char c :: content cs := by
  cases cs with
  | nil => simp [content, h]
  | cons x cs =>
    cases x with
    | plain p visible noQuote noBackslash => simp [content, h]
    | letter name meaning known => simp [content, h]
    | numeric low =>
      have hnone : digits.point.join? low.point = none := by
        rw [h]
        rfl
      rw [content, hnone, h]

theorem writeCodePoint_other {c : Char}
    (h : ∀ name meaning, (name, meaning) ∈ escapes → meaning ≠ '/' → c ≠ meaning) :
    writeCodePoint (.char c) = Text.ofString (if c.toNat < 0x20 then
      String.ofList ('\\' :: 'u' :: Text.hexDigits 4 c.toNat) else String.singleton c) := by
  generalize hwritten : (if c.toNat < 0x20 then
    String.ofList ('\\' :: 'u' :: Text.hexDigits 4 c.toNat) else String.singleton c) = written
  unfold writeCodePoint
  split
  · rename_i heq
    injection heq with heq
    split
    · exact absurd heq (h '"' '"' (by decide) (by decide))
    · exact absurd heq (h '\\' '\\' (by decide) (by decide))
    · exact absurd heq (h 'n' '\n' (by decide) (by decide))
    · exact absurd heq (h 'r' '\r' (by decide) (by decide))
    · exact absurd heq (h 't' '\t' (by decide) (by decide))
    · exact absurd heq (h 'f' '\x0c' (by decide) (by decide))
    · exact absurd heq (h 'b' '\x08' (by decide) (by decide))
    · rw [← hwritten, heq]
  · rename_i hchar
    exact absurd rfl (hchar c)

/-- A code point is written as a character of the grammar that denotes it, whatever follows. -/
theorem exists_character (c : CodePoint) :
    ∃ x : Character, x.text = writeCodePoint c ∧ ∀ cs, content (x :: cs) = c :: content cs := by
  cases c with
  | surrogate index =>
    have hvisible : 0x20 ≤ (CodePoint.surrogate index).value := by
      show 0x20 ≤ 0xD800 + index.val
      omega
    exact ⟨.plain _ hvisible (by simp) (by simp), rfl, fun cs => by rw [content]⟩
  | char c =>
    by_cases hletter : ∃ name, (name, c) ∈ escapes ∧ c ≠ '/'
    · obtain ⟨name, hknown, hslash⟩ := hletter
      refine ⟨.letter name c hknown, ?_, fun cs => by rw [content]⟩
      simp only [escapes, List.mem_cons, Prod.mk.injEq, List.not_mem_nil, or_false] at hknown
      rcases hknown with ⟨rfl, rfl⟩ | ⟨rfl, rfl⟩ | ⟨rfl, rfl⟩ | ⟨rfl, rfl⟩ | ⟨rfl, rfl⟩ |
        ⟨rfl, rfl⟩ | ⟨rfl, rfl⟩ | ⟨rfl, rfl⟩
      all_goals first | rfl | exact absurd rfl hslash
    · have hne : ∀ name meaning, (name, meaning) ∈ escapes → meaning ≠ '/' → c ≠ meaning := by
        rintro name meaning hknown hslash rfl
        exact hletter ⟨name, hknown, hslash⟩
      rw [writeCodePoint_other hne]
      by_cases hcontrol : c.toNat < 0x20
      · have hpoint := controlDigits_point ⟨c.toNat, hcontrol⟩
        rw [Char.ofNat_toNat] at hpoint
        refine ⟨.numeric (controlDigits ⟨c.toNat, hcontrol⟩), ?_, content_numeric hpoint⟩
        rw [if_pos hcontrol, Character.text, controlDigits_text, Text.ofString,
          String.toList_ofList]
        rfl
      · have hquote : CodePoint.char c ≠ .char '"' := by
          simpa using hne '"' '"' (by decide) (by decide)
        have hbackslash : CodePoint.char c ≠ .char '\\' := by
          simpa using hne '\\' '\\' (by decide) (by decide)
        refine ⟨.plain (.char c) (Nat.not_lt.mp hcontrol) hquote hbackslash, ?_,
          fun cs => by rw [content]⟩
        rw [if_neg hcontrol]
        simp [Character.text, Text.ofString]

theorem exists_written_string (s : Text) :
    ∃ cs : List Character, stringText cs = writeString s ∧ content cs = s := by
  have hcharacters : ∃ cs, charactersText cs = s.flatMap writeCodePoint ∧ content cs = s := by
    induction s with
    | nil => exact ⟨[], rfl, by rw [content]⟩
    | cons c s ih =>
      obtain ⟨cs, htext, hcontent⟩ := ih
      obtain ⟨x, hx, hmeans⟩ := exists_character c
      refine ⟨x :: cs, ?_, by rw [hmeans, hcontent]⟩
      show x.text ++ charactersText cs = _
      rw [hx, htext, List.flatMap_cons]
  obtain ⟨cs, htext, hcontent⟩ := hcharacters
  exact ⟨cs, by rw [stringText, writeString, htext], hcontent⟩

/-! ## Layout -/

/-- The gap that a line break with its indentation makes. -/
def lineGap (indent depth : Nat) : List Space := .lineFeed :: List.replicate (indent * depth) .blank

theorem spacing_lineGap (indent depth : Nat) :
    spacing (lineGap indent depth) = lineBreak indent depth := by
  simp [spacing, lineGap, lineBreak, Space.char]

/-- Whether a value that begins at a depth is written as one that the grammar derives, and that fits
    a reader with some levels left. -/
def Derivable (indent levels depth : Nat) (v : Value) : Prop :=
  ∃ t : Tree, t.text = write indent depth v ∧ t.value = v ∧ t.Fits levels

variable {indent levels depth : Nat}

theorem exists_written_items (behind : List Space) {item : Value} {others : List Value}
    (h : ∀ v ∈ item :: others, Derivable indent levels depth v) :
    ∃ its : Items, its.text = lineBreak indent depth ++ write indent depth item ++
        writeItems indent depth others ++ spacing behind ∧
      its.values = item :: others ∧ its.Fits levels := by
  induction others generalizing item with
  | nil =>
    obtain ⟨t, htext, rfl, hfits⟩ := h item List.mem_cons_self
    refine ⟨.last (lineGap indent depth) t behind, ?_, rfl, Items.fits_last.mpr hfits⟩
    rw [Items.text, spacing_lineGap, htext, writeItems, List.append_nil]
  | cons next others ih =>
    obtain ⟨t, htext, rfl, hfits⟩ := h item List.mem_cons_self
    obtain ⟨its, hits, hvalues, hothers⟩ := ih fun v hv => h v (List.mem_cons_of_mem _ hv)
    refine ⟨.more (lineGap indent depth) t [] its, ?_, ?_, Items.fits_more.mpr ⟨hfits, hothers⟩⟩
    · rw [Items.text, spacing_lineGap, htext, hits, writeItems]
      simp
    · rw [Items.values, hvalues]

theorem exists_written_members (behind : List Space) {key : Text} {v : Value}
    {others : List (Text × Value)}
    (h : ∀ m ∈ (key, v) :: others, Derivable indent levels depth m.2) :
    ∃ ms : Members, ms.text = lineBreak indent depth ++ writeString key ++ [.char ':', .char ' '] ++
        write indent depth v ++ writeMembers indent depth others ++ spacing behind ∧
      ms.pairs = (key, v) :: others ∧ ms.Fits levels := by
  obtain ⟨cs, hkey, hcontent⟩ := exists_written_string key
  induction others generalizing key v cs with
  | nil =>
    obtain ⟨t, htext, hvalue, hfits⟩ := h _ List.mem_cons_self
    refine ⟨.last (lineGap indent depth) cs [] [.blank] t behind, ?_, ?_,
      Members.fits_last.mpr hfits⟩
    · rw [Members.text, keyText, spacing_lineGap, hkey, htext, writeMembers]
      simp [spacing, Space.char]
    · rw [Members.pairs, hcontent, hvalue]
  | cons next others ih =>
    obtain ⟨key', v'⟩ := next
    obtain ⟨t, htext, hvalue, hfits⟩ := h _ List.mem_cons_self
    obtain ⟨cs', hkey', hcontent'⟩ := exists_written_string key'
    obtain ⟨ms, hms, hpairs, hothers⟩ :=
      ih (fun m hm => h m (List.mem_cons_of_mem _ hm)) cs' hkey' hcontent'
    refine ⟨.more (lineGap indent depth) cs [] [.blank] t [] ms, ?_, ?_,
      Members.fits_more.mpr ⟨hfits, hothers⟩⟩
    · rw [Members.text, keyText, spacing_lineGap, hkey, htext, hms, writeMembers]
      simp [spacing, Space.char]
    · rw [Members.pairs, hcontent, hvalue, hpairs]

/-- A value without infinities is written as one that the grammar derives. -/
theorem derivable_of_regular {v : Value} (hregular : ∀ w, Part w v → w.Regular) (hfinite : v.Finite)
    (hdepth : v.depth ≤ levels) : Derivable indent levels depth v := by
  induction v using Value.induction generalizing levels depth with
  | null => exact ⟨.null, rfl, rfl, Nat.zero_le _, Nat.zero_le _⟩
  | bool b => exact ⟨.bool b, rfl, rfl, Nat.zero_le _, Nat.zero_le _⟩
  | int z =>
    obtain ⟨n, htext, hvalue, hlength⟩ := exists_integer z
    have hshort := hregular _ (Part.self _)
    refine ⟨.number n, htext, hvalue, Nat.zero_le _, ?_⟩
    show n.integerLength ≤ _
    rw [hlength]
    exact hshort
  | float x =>
    cases x with
    | finite negative rank =>
      obtain ⟨n, htext, hvalue, hlength⟩ := exists_float negative rank
      refine ⟨.number n, htext, hvalue, Nat.zero_le _, ?_⟩
      show n.integerLength ≤ _
      rw [hlength]
      exact Nat.zero_le _
    | infinite negative => exact absurd (Part.self _) (hfinite negative)
    | nan => exact absurd rfl (hregular _ (Part.self _))
  | str s =>
    obtain ⟨cs, htext, hcontent⟩ := exists_written_string s
    exact ⟨.string cs, htext, congrArg Value.str hcontent, Nat.zero_le _, Nat.zero_le _⟩
  | list items ih =>
    obtain ⟨levels, rfl, hdepths⟩ := Value.depth_list_cases hdepth
    have hitems : ∀ v ∈ items, Derivable indent levels (depth + 1) v := fun v hv =>
      ih v hv (fun w hw => hregular w (.item hv hw))
        (fun negative hw => hfinite negative (.item hv hw)) (hdepths v hv)
    cases items with
    | nil =>
      exact ⟨.emptyArray [], rfl, rfl, Nat.succ_le_succ (Nat.zero_le _), Nat.zero_le _⟩
    | cons item others =>
      obtain ⟨its, htext, hvalues, hfits⟩ := exists_written_items (lineGap indent depth) hitems
      refine ⟨.array its, ?_, congrArg Value.list hvalues, Tree.fits_array.mpr hfits⟩
      rw [Tree.text, htext, spacing_lineGap, write]
      simp
  | obj members ih =>
    obtain ⟨levels, rfl, hdepths⟩ := Value.depth_obj_cases hdepth
    have hmembers : ∀ m ∈ members, Derivable indent levels (depth + 1) m.2 := fun m hm =>
      ih m hm (fun w hw => hregular w (.member hm hw))
        (fun negative hw => hfinite negative (.member hm hw)) (hdepths m hm)
    cases members with
    | nil =>
      exact ⟨.emptyObject [], rfl, rfl, Nat.succ_le_succ (Nat.zero_le _), Nat.zero_le _⟩
    | cons m others =>
      obtain ⟨key, v⟩ := m
      have hkeys := hregular _ (Part.self _)
      obtain ⟨ms, htext, hpairs, hfits⟩ := exists_written_members (lineGap indent depth) hmembers
      refine ⟨.object ms, ?_, ?_, Tree.fits_object.mpr hfits⟩
      · rw [Tree.text, htext, spacing_lineGap, write]
        simp
      · rw [Tree.value, hpairs, ← members_eq_settled, members_of_nodup hkeys]

/-! ## Reading back -/

/-- Both dialects read a layout back. -/
theorem document_layOut (dialect : Dialect) {levels : Nat} {v : Value}
    (hregular : ∀ w, Part w v → w.Regular) (hfinite : v.Finite) (hdepth : v.depth ≤ levels)
    (indent : Int) : document dialect levels (layOut indent v) = .ok v := by
  obtain ⟨t, htext, hvalue, hfits⟩ :=
    @derivable_of_regular indent.toNat levels 0 v hregular hfinite hdepth
  have hread := document_text dialect (d := ⟨[], t, []⟩) hfits
  rwa [Document.text, Document.value, spacing_nil, List.nil_append, List.append_nil, htext,
    hvalue] at hread

/-- Reading undoes writing, for every value that neither holds an infinity nor exceeds a bound of
    the reader, and whatever the indent. -/
theorem parse_layOut (levels : Nat) (v : Value) (hregular : ∀ w, Part w v → w.Regular)
    (hfinite : v.Finite) (hdepth : v.depth ≤ levels) (indent : Int) :
    parse levels (layOut indent v) = .ok v ∧ (indent < 0 → layOut indent v = layOut 0 v) := by
  constructor
  · obtain ⟨t, htext, hvalue, hfits⟩ := derivable_of_regular hregular hfinite hdepth
    rw [layOut, ← htext, parse_tree hfits, hvalue]
  · intro hnegative
    have hzero : indent.toNat = 0 := by omega
    rw [layOut, layOut, hzero]
    rfl

/-- An object with an array in it, laid out with a negative indent: a negative integer, a zero with
    a sign, a quote mark and a surrogate without its other half are read back. -/
theorem parse_layOut_nested :
    let v : Value := .obj [(Text.ofString "k", .list
      [.int (-3), .float (Binary64.signedZero true), .str [.char '"', .surrogate 5]])]
    parse 2 (layOut (-2) v) = .ok v := by
  intro v
  have hv : v = .obj [(Text.ofString "k", .list
      [.int (-3), .float (Binary64.signedZero true), .str [.char '"', .surrogate 5]])] := rfl
  have hparts : ∀ w, Part w v → w = v ∨ (∃ items, w = .list items) ∨ w = .int (-3) ∨
      w = .float (Binary64.signedZero true) ∨ ∃ s, w = .str s := by
    intro w hw
    generalize v = v' at hv hw ⊢
    subst hv
    cases hw with
    | self => exact Or.inl rfl
    | member hm hw =>
      rw [List.mem_singleton.mp hm] at hw
      cases hw with
      | self => exact Or.inr (Or.inl ⟨_, rfl⟩)
      | item hv hw =>
        simp only [List.mem_cons, List.not_mem_nil, or_false] at hv
        rcases hv with rfl | rfl | rfl <;> cases hw <;> simp
  have hregular : ∀ w, Part w v → w.Regular := by
    intro w hw
    rcases hparts w hw with rfl | ⟨items, rfl⟩ | rfl | rfl | ⟨s, rfl⟩
    · exact List.nodup_singleton _
    · trivial
    · show Binary64.digitCount 3 ≤ 4300
      decide
    · exact fun heq => by cases heq
    · trivial
  have hfinite : v.Finite := by
    intro negative hw
    rcases hparts _ hw with heq | ⟨items, heq⟩ | heq | heq | ⟨s, heq⟩
    · rw [hv] at heq
      cases heq
    all_goals cases heq
  exact (parse_layOut 2 v hregular hfinite (by decide) (-2)).1

/-! ## Digits of numbers -/

/-- A floating-point number is written with the fewest digits: no number of the grammar that is read
    as the same one has fewer. -/
theorem significant_length_le {levels : Nat} {n : Number} (h : n.isInteger = false)
    {negative : Bool} {rank : Fin Binary64.magnitudes}
    (hread : parse levels n.text = .ok (.float (.finite negative rank))) :
    (Binary64.shortest rank.val).significant.1.length ≤ Binary64.digitCount n.allDigits := by
  obtain ⟨-, hrounds⟩ := (parse_number_finite_iff h).mp hread
  have hreads : Binary64.Decimal.readsAs ⟨n.allDigits, n.power⟩ rank.val = true :=
    (Binary64.Decimal.readsAs_iff rank.isLt).mpr
      ((Binary64.roundsTo_iff (Nat.pow_pos (by decide))).mp hrounds)
  exact (Binary64.isShortest_shortest rank).1.fewest _ hreads

end TextTidy.Json
