import TextTidy.Text.Newline
import TextTidy.Text.Utf8

/-!
# Texts and their bytes

Bytes give back the text they were made from, lone surrogates included. Strict UTF-8 has no bytes
for those, so the texts that can be written in it are the ones without them.
-/

namespace TextTidy

/-! ## Texts without lone surrogates -/

/-- A text without lone surrogates, which can be written in strict UTF-8. -/
def Text.Encodable (s : Text) : Prop := ∀ index, CodePoint.surrogate index ∉ s

namespace Text

variable {s t : Text}

@[simp] theorem encodable_nil : Encodable [] := fun _ => List.not_mem_nil

@[simp] theorem encodable_cons {c : CodePoint} :
    Encodable (c :: s) ↔ (∀ index, c ≠ .surrogate index) ∧ Encodable s := by
  simp only [Encodable, List.mem_cons, not_or, forall_and, ne_comm (a := c), ne_eq]

@[simp] theorem encodable_append : Encodable (s ++ t) ↔ Encodable s ∧ Encodable t := by
  simp only [Encodable, List.mem_append, not_or, forall_and]

/-- A text is encodable if all its code points come from an encodable one or are characters. -/
theorem Encodable.of_mem (h : Encodable s)
    (hmem : ∀ c ∈ t, c ∈ s ∨ ∃ a : Char, c = .char a) : Encodable t := by
  intro index hindex
  rcases hmem _ hindex with hin | ⟨a, ha⟩
  · exact h index hin
  · cases ha

@[simp] theorem encodable_ofString (s : String) : Encodable (ofString s) := by
  intro index hindex
  obtain ⟨c, -, hc⟩ := List.mem_map.mp hindex
  cases hc

theorem toString?_cons (c : CodePoint) (s : Text) :
    toString? (c :: s) = c.char?.bind fun a => (toString? s).map (String.singleton a ++ ·) := by
  cases c with
  | surrogate index => rfl
  | char a =>
    cases hs : s.mapM CodePoint.char? with
    | none => simp [toString?, CodePoint.char?, hs]
    | some characters =>
      have hjoin : String.ofList (a :: characters) =
          String.singleton a ++ String.ofList characters := by
        rw [← List.singleton_append, String.ofList_append]
        rfl
      simp [toString?, CodePoint.char?, hs, hjoin]

theorem toString?_eq_some_iff {a : String} : toString? s = some a ↔ s = ofString a := by
  constructor
  · intro h
    induction s generalizing a with
    | nil =>
      obtain rfl : String.ofList [] = a := Option.some.inj h
      rfl
    | cons c s ih =>
      rw [toString?_cons] at h
      obtain ⟨b, hb, h⟩ := Option.bind_eq_some_iff.mp h
      obtain ⟨rest, hrest, rfl⟩ := Option.map_eq_some_iff.mp h
      cases c with
      | surrogate index => cases hb
      | char c =>
        obtain rfl : c = b := Option.some.inj hb
        rw [ih hrest]
        simp [ofString]
  · rintro rfl
    exact toString?_ofString a

theorem toString?_eq_none_iff : toString? s = none ↔ ¬ Encodable s := by
  induction s with
  | nil => simp [toString?, encodable_nil]
  | cons c s ih =>
    rw [toString?_cons, encodable_cons]
    cases c with
    | surrogate index => simp [CodePoint.char?]
    | char c => simp [CodePoint.char?, ih]

theorem Encodable.exists_string (h : Encodable s) : ∃ a, toString? s = some a ∧ s = ofString a := by
  cases ha : toString? s with
  | none => exact absurd h (toString?_eq_none_iff.mp ha)
  | some a => exact ⟨a, rfl, toString?_eq_some_iff.mp ha⟩

theorem ofString_append (a b : String) : ofString (a ++ b) = ofString a ++ ofString b := by
  rw [ofString, String.toList_append, List.map_append]
  rfl

theorem ofString_inj {a b : String} : ofString a = ofString b ↔ a = b := by
  constructor
  · intro h
    have htext := toString?_ofString a
    rw [h, toString?_ofString] at htext
    exact (Option.some.inj htext).symm
  · rintro rfl
    rfl

/-! ## Line ends -/

theorem mem_unifyLineEnds {c : CodePoint} (h : c ∈ unifyLineEnds s) : c ∈ s ∨ c = .char '\n' := by
  induction s using unifyLineEnds.induct with
  | case1 => cases h
  | case2 rest ih =>
    rw [unifyLineEnds, List.mem_cons] at h
    rcases h with h | h
    · exact Or.inr h
    · exact (ih h).imp_left fun hin => List.mem_cons_of_mem _ (List.mem_cons_of_mem _ hin)
  | case3 rest hrest ih =>
    rw [unifyLineEnds, List.mem_cons] at h
    · rcases h with h | h
      · exact Or.inr h
      · exact (ih h).imp_left (List.mem_cons_of_mem _)
    · exact hrest
  | case4 x rest hpair hreturn ih =>
    rw [unifyLineEnds, List.mem_cons] at h
    · rcases h with rfl | h
      · exact Or.inl List.mem_cons_self
      · exact (ih h).imp_left (List.mem_cons_of_mem _)
    · exact hpair
    · exact hreturn

theorem Encodable.unifyLineEnds (h : Encodable s) : Encodable (unifyLineEnds s) :=
  h.of_mem fun _ hc => (mem_unifyLineEnds hc).imp_right fun hnewline => ⟨'\n', hnewline⟩

theorem unifyLineEnds_of_not_mem (h : .char '\r' ∉ s) : unifyLineEnds s = s := by
  induction s with
  | nil => rfl
  | cons c s ih =>
    obtain ⟨hc, hs⟩ := not_or.mp (mt List.mem_cons.mpr h)
    rw [Text.unifyLineEnds, ih hs]
    · rintro rest rfl -
      exact hc rfl
    · rintro rfl
      exact hc rfl

end Text

/-! ## Round trip -/

theorem CodePoint.value_lt (c : CodePoint) : c.value < 0x110000 := by
  cases c with
  | char c =>
    have h := c.valid
    simp only [UInt32.isValidChar, Nat.isValidChar] at h
    show c.val.toNat < 0x110000
    omega
  | surrogate index =>
    have h := index.isLt
    simp only [value]
    omega

theorem CodePoint.ofNat?_value (c : CodePoint) : ofNat? c.value = some c := by
  have hlt := c.value_lt
  cases c with
  | char c =>
    have h := c.valid
    simp only [UInt32.isValidChar, Nat.isValidChar] at h
    have hapart : ¬ (0xD800 ≤ value (.char c) ∧ value (.char c) < 0xE000) := by
      show ¬ (0xD800 ≤ c.val.toNat ∧ c.val.toNat < 0xE000)
      omega
    rw [ofNat?, dif_neg hapart, if_pos hlt]
    simp [value]
  | surrogate index =>
    have h := index.isLt
    have hin : 0xD800 ≤ value (.surrogate index) ∧ value (.surrogate index) < 0xE000 := by
      simp only [value]
      omega
    rw [ofNat?, dif_pos hin]
    simp [value]

namespace Utf8

/-- A small number is the number of its byte. -/
theorem toNat_byte {n : Nat} (h : n < 256) : (UInt8.ofNat n).toNat = n := by
  rw [UInt8.toNat_ofNat', Nat.mod_eq_of_lt h]

theorem continuation?_trail (n : Nat) :
    continuation? (UInt8.ofNat (0x80 + n % 64)) = some (n % 64) := by
  have h : n % 64 < 64 := Nat.mod_lt n (by decide)
  rw [continuation?, toNat_byte (by omega), if_pos (by omega), Nat.add_sub_cancel_left]

/-- The bytes of a code point are read as that code point, whatever follows them. -/
theorem sequence?_encodeNat (c : CodePoint) :
    ∃ first more, encodeNat c.value = first :: more ∧
      ∀ rest, sequence? first (more ++ rest) = some (c, more.length) := by
  have hlt := c.value_lt
  have hcode := c.ofNat?_value
  generalize c.value = n at hlt hcode
  have hatLeast : ∀ least m, m = n → least ≤ n → atLeast? least m = some c := by
    rintro least m rfl hle
    rw [atLeast?, if_pos hle, hcode]
  by_cases h1 : n < 0x80
  · refine ⟨_, _, by rw [encodeNat, if_pos h1], fun rest => ?_⟩
    have hlead := toNat_byte (n := n) (by omega)
    simp only [sequence?, hlead, if_pos h1, hcode]
    rfl
  by_cases h2 : n < 0x800
  · refine ⟨_, _, by rw [encodeNat, if_neg h1, if_pos h2], fun rest => ?_⟩
    have hlead := toNat_byte (n := 0xC0 + n / 64) (by omega)
    simp only [sequence?, hlead, List.cons_append, List.nil_append, continuation?_trail,
      Option.bind_eq_bind, Option.bind_some]
    rw [if_neg (by omega), if_neg (by omega), if_pos (by omega),
      hatLeast 0x80 _ (by omega) (by omega)]
    rfl
  by_cases h3 : n < 0x10000
  · refine ⟨_, _, by rw [encodeNat, if_neg h1, if_neg h2, if_pos h3], fun rest => ?_⟩
    have hlead := toNat_byte (n := 0xE0 + n / 4096) (by omega)
    simp only [sequence?, hlead, List.cons_append, List.nil_append, continuation?_trail,
      Option.bind_eq_bind, Option.bind_some]
    rw [if_neg (by omega), if_neg (by omega), if_neg (by omega), if_pos (by omega),
      hatLeast 0x800 _ (by omega) (by omega)]
    rfl
  · refine ⟨_, _, by rw [encodeNat, if_neg h1, if_neg h2, if_neg h3], fun rest => ?_⟩
    have hlead := toNat_byte (n := 0xF0 + n / 262144) (by omega)
    simp only [sequence?, hlead, List.cons_append, List.nil_append, continuation?_trail,
      Option.bind_eq_bind, Option.bind_some]
    rw [if_neg (by omega), if_neg (by omega), if_neg (by omega), if_neg (by omega),
      if_pos (by omega), hatLeast 0x10000 _ (by omega) (by omega)]
    rfl

theorem decodeFrom_skip (more rest : Bytes) :
    decodeFrom more.length (more ++ rest) = decodeFrom 0 rest := by
  induction more with
  | nil => rfl
  | cons b more ih => rw [List.length_cons, List.cons_append, decodeFrom, ih]

/-- Bytes that were made from a text give it back. -/
theorem decode_encode (s : Text) : decode (encode s) = some s := by
  induction s with
  | nil => rfl
  | cons c s ih =>
    obtain ⟨first, more, hbytes, hread⟩ := sequence?_encodeNat c
    have hencode : encode (c :: s) = first :: (more ++ encode s) := by
      rw [encode, List.flatMap_cons, hbytes]
      rfl
    rw [decode] at ih
    rw [decode, hencode, decodeFrom, hread]
    simp only [decodeFrom_skip, ih, Option.map_some]

theorem encode_inj {s t : Text} : encode s = encode t ↔ s = t := by
  constructor
  · intro h
    have hread := decode_encode s
    rw [h, decode_encode] at hread
    exact (Option.some.inj hread).symm
  · rintro rfl
    rfl

theorem encodeString_line (s : String) :
    encodeString (s ++ "\n") = encode (Text.ofString s ++ [.char '\n']) := by
  rw [encodeString, Text.ofString_append]
  rfl

theorem decodeStrict_encodeString (s : String) : decodeStrict (encodeString s) = some s := by
  rw [decodeStrict, encodeString, decode_encode, Option.bind_some, Text.toString?_ofString]

end Utf8

end TextTidy
