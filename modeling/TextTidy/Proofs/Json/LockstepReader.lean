import TextTidy.Proofs.Json.Lockstep

/-!
# Values in lockstep

Readers of values keep in step as well: scalars, the items of arrays, the members of objects, and so
whole documents.
-/

namespace TextTidy.Json

/-! No word for a value holds a line end. -/

theorem keywords_plain :
    ∀ word ∈ keywords, ∀ a ∈ word.1.toList, isLineEnd (.char a) = false := by
  simp [keywords, isLineEnd]

theorem constantWords_plain :
    ∀ word ∈ constantWords, ∀ a ∈ word.1.toList, isLineEnd (.char a) = false := by
  simp [constantWords, Constant.all, Constant.name, isLineEnd]

namespace Lockstep

variable {R : Text → Text → Prop} (hR : Lockstep R) {s t : Text}

include hR

/-! ## Scalars -/

theorem scalar_agree (dialect : Dialect) (h : R s t) :
    Agree R (Beside R) (bare (scalar dialect s)) (bare (scalar dialect t)) := by
  rcases hR.head_cases (c := .char '"') (by decide) h with ⟨s', t', rfl, rfl, hrest⟩ | ⟨hs, ht⟩
  · rw [scalar_string, scalar_string]
    exact (hR.charactersFrom_agree h hrest).map Value.str
  · rw [scalar_other dialect hs, scalar_other dialect ht]
    rcases rel_cases (hR.oneOf?_rel keywords_plain h) with
      ⟨v, left, left', hks, hkt, hleft⟩ | ⟨hks, hkt⟩
    · rw [hks, hkt]
      exact .ok ⟨rfl, hleft⟩
    rcases rel_cases (hR.oneOf?_rel constantWords_plain h) with
      ⟨word, left, left', hcs, hct, hleft⟩ | ⟨hcs, hct⟩
    · simp only [hks, hkt, hcs, hct]
      split
      · exact .ok ⟨rfl, hleft⟩
      · exact .error (.constant word h)
    rcases rel_cases (hR.numberLiteral?_rel h) with
      ⟨number, left, left', hns, hnt, hleft⟩ | ⟨hns, hnt⟩
    · simp only [hks, hkt, hcs, hct, hns, hnt]
      split
      · exact .error (.beyond _)
      · exact .ok ⟨rfl, hleft⟩
    · simp only [hks, hkt, hcs, hct, hns, hnt]
      exact agree_malformed _ h

/-! ## Sequences -/

section Sequence

variable {α : Type} {close : Char} {again : Text → Except Fault (List α × Text)}
  {element : Text → Except Fault (α × Text)}

theorem behindElement_agree (hclose : isLineEnd (.char close) = false) (hcomma : close ≠ ',')
    {a : α} (h : R s t)
    (hagain : ∀ s' t', s'.length < s.length → R s' t' →
      Agree R (Beside R) (again s') (again t')) :
    Agree R (Beside R) (behindElement close again (a, s)) (behindElement close again (a, t)) := by
  have hskipped := hR.skipSpacing_left h
  rcases hR.head_cases hclose hskipped with ⟨s', t', hs, ht, hrest⟩ | ⟨hs, ht⟩
  · rw [behindElement_close hs, behindElement_close ht]
    exact .ok ⟨rfl, hrest⟩
  rcases hR.head_cases (c := .char ',') (by decide) hskipped with
    ⟨s', t', hs', ht', hrest⟩ | ⟨hs', ht'⟩
  · rw [behindElement_comma hcomma hs', behindElement_comma hcomma ht']
    have hshorter : (skipSpacing s').length < s.length :=
      Nat.lt_of_le_of_lt (skipSpacing_length_le s') (skipSpacing_shorter hs')
    exact (hagain _ _ hshorter (hR.skipSpacing_left hrest)).map (a :: ·)
  · rw [behindElement_other (fun left hnext => hs (by rw [hnext]; rfl))
        (fun left hnext => hs' (by rw [hnext]; rfl)),
      behindElement_other (fun left hnext => ht (by rw [hnext]; rfl))
        (fun left hnext => ht' (by rw [hnext]; rfl))]
    exact agree_malformed _ hskipped

/-- Sequences of elements that are read alike are read alike. -/
theorem sequence_agree (hclose : isLineEnd (.char close) = false) (hcomma : close ≠ ',')
    (hseq : ∀ s, again s = (element s).bind (behindElement close again))
    (hshorter : ∀ {s a left}, element s = .ok (a, left) → left.length < s.length)
    (helement : ∀ {s t}, R s t → Agree R (Beside R) (element s) (element t)) (h : R s t) :
    Agree R (Beside R) (again s) (again t) := by
  induction hn : s.length using Nat.strongRecOn generalizing s t with
  | ind n ih =>
    rw [hseq, hseq t]
    refine (helement h).bind ?_
    rintro ⟨a, left⟩ ⟨_, left'⟩ hread ⟨rfl, hleft⟩
    refine hR.behindElement_agree hclose hcomma hleft fun s' t' hlength hrest => ?_
    exact ih _ (by have := hshorter hread; omega) hrest rfl

end Sequence

/-! ## Arrays and objects -/

section Containers

variable {item : Reader Value}
  (hitem : ∀ {s t}, R s t → Agree R (Beside R) (bare (item s)) (bare (item t)))

include hitem

theorem items_agree (h : R s t) :
    Agree R (Beside R) (bare (items item s)) (bare (items item t)) :=
  hR.sequence_agree (by decide) (by decide) (items_eq item) length_of_bare hitem h

theorem array_agree (h : R s t) :
    Agree R (Beside R) (bare (array item s)) (bare (array item t)) := by
  have hskipped := hR.skipSpacing_left h
  rcases hR.head_cases (c := .char ']') (by decide) hskipped with
    ⟨s', t', hs, ht, hrest⟩ | ⟨hs, ht⟩
  · rw [array_close item hs, array_close item ht]
    exact .ok ⟨rfl, hrest⟩
  · rw [array_items item fun left hnext => hs (by rw [hnext]; rfl),
      array_items item fun left hnext => ht (by rw [hnext]; rfl)]
    exact (hR.items_agree hitem hskipped).map Value.list

theorem behindKey_agree {key : Text} (h : R s t) :
    Agree R (Beside R) (behindKey item (key, s)) (behindKey item (key, t)) := by
  have hskipped := hR.skipSpacing_left h
  rcases hR.head_cases (c := .char ':') (by decide) hskipped with
    ⟨s', t', hs, ht, hrest⟩ | ⟨hs, ht⟩
  · rw [behindKey_colon hs, behindKey_colon ht]
    exact (hitem (hR.skipSpacing_left hrest)).map (Prod.mk key)
  · rw [behindKey_other fun left hnext => hs (by rw [hnext]; rfl),
      behindKey_other fun left hnext => ht (by rw [hnext]; rfl)]
    exact agree_malformed _ hskipped

theorem pair_agree (h : R s t) :
    Agree R (Beside R) (bare (pair item s)) (bare (pair item t)) := by
  rcases hR.head_cases (c := .char '"') (by decide) h with ⟨s', t', rfl, rfl, hrest⟩ | ⟨hs, ht⟩
  · rw [pair_quote, pair_quote]
    refine (hR.charactersFrom_agree h hrest).bind ?_
    rintro ⟨key, left⟩ ⟨_, left'⟩ - ⟨rfl, hleft⟩
    exact hR.behindKey_agree hitem hleft
  · rw [pair_other item hs, pair_other item ht]
    exact agree_malformed _ h

theorem pairs_agree (h : R s t) :
    Agree R (Beside R) (bare (pairs item s)) (bare (pairs item t)) :=
  hR.sequence_agree (by decide) (by decide) (pairs_eq item) length_of_bare
    (hR.pair_agree hitem) h

theorem object_agree (h : R s t) :
    Agree R (Beside R) (bare (object item s)) (bare (object item t)) := by
  have hskipped := hR.skipSpacing_left h
  rcases hR.head_cases (c := .char '}') (by decide) hskipped with
    ⟨s', t', hs, ht, hrest⟩ | ⟨hs, ht⟩
  · rw [object_close item hs, object_close item ht]
    exact .ok ⟨rfl, hrest⟩
  · rw [object_pairs item fun left hnext => hs (by rw [hnext]; rfl),
      object_pairs item fun left hnext => ht (by rw [hnext]; rfl)]
    exact (hR.pairs_agree hitem hskipped).map fun found => Value.obj (members found)

end Containers

/-! ## Values and documents -/

theorem value_agree (dialect : Dialect) (levels : Nat) (h : R s t) :
    Agree R (Beside R) (bare (value dialect levels s)) (bare (value dialect levels t)) := by
  induction levels generalizing s t with
  | zero =>
    rcases hR.head_cases (c := .char '[') (by decide) h with
      ⟨s', t', rfl, rfl, -⟩ | ⟨harray, harray'⟩
    · exact .error (.beyond _)
    rcases hR.head_cases (c := .char '{') (by decide) h with
      ⟨s', t', rfl, rfl, -⟩ | ⟨hobject, hobject'⟩
    · exact .error (.beyond _)
    rw [value_scalar harray hobject, value_scalar harray' hobject']
    exact hR.scalar_agree dialect h
  | succ levels ih =>
    rcases hR.head_cases (c := .char '[') (by decide) h with
      ⟨s', t', rfl, rfl, hrest⟩ | ⟨harray, harray'⟩
    · rw [value_array, value_array]
      exact hR.array_agree ih hrest
    rcases hR.head_cases (c := .char '{') (by decide) h with
      ⟨s', t', rfl, rfl, hrest⟩ | ⟨hobject, hobject'⟩
    · rw [value_object, value_object]
      exact hR.object_agree ih hrest
    rw [value_scalar harray hobject, value_scalar harray' hobject']
    exact hR.scalar_agree dialect h

/-- Readers of documents that go through related texts come to the same value, or to the same fault
    at related places. -/
theorem document_agree (dialect : Dialect) (levels : Nat) (h : R s t) :
    Agree R Eq (document dialect levels s) (document dialect levels t) := by
  rw [document_eq, document_eq]
  rcases hR.head_cases (c := byteOrderMark) (by decide) h with
    ⟨s', t', rfl, rfl, -⟩ | ⟨hs, ht⟩
  · exact agree_malformed _ h
  · rw [if_neg hs, if_neg ht]
    refine (hR.value_agree dialect levels (hR.skipSpacing_left h)).bind ?_
    rintro ⟨v, left⟩ ⟨_, left'⟩ - ⟨rfl, hleft⟩
    have hskipped := hR.skipSpacing_left hleft
    simp only [List.isEmpty_iff, hR.eq_nil_iff hskipped]
    split
    · exact .ok rfl
    · exact agree_malformed _ hskipped

end Lockstep

end TextTidy.Json
