import TextTidy.Proofs.Json.Derived
import TextTidy.Proofs.Json.Numeral
import TextTidy.Proofs.Json.Part
import TextTidy.Proofs.Utf8

/-!
# Layouts with bytes

The writer escapes nothing that JSON leaves as it is, lone surrogates among it. A reader takes such
a surrogate from an escape. So a value is laid out as a text with bytes exactly if no string and no
key in it has a lone surrogate.
-/

namespace TextTidy.Json

open Text (Encodable encodable_nil encodable_cons encodable_append encodable_ofString)

/-- A value without lone surrogates in its strings and keys, at any depth. -/
structure Value.Encodable (v : Value) : Prop where
  strings : ∀ s, Part (.str s) v → Text.Encodable s
  keys : ∀ members, Part (.obj members) v → ∀ m ∈ members, Text.Encodable m.1

/-! ## Values and their parts -/

theorem encodable_str {s : Text} : (Value.str s).Encodable ↔ Encodable s := by
  constructor
  · intro h
    exact h.strings s (.self _)
  · intro h
    refine ⟨fun t ht => ?_, fun members hm => ?_⟩
    · cases ht
      exact h
    · cases hm

theorem encodable_list {items : List Value} :
    (Value.list items).Encodable ↔ ∀ v ∈ items, v.Encodable := by
  constructor
  · intro h v hv
    exact ⟨fun s hs => h.strings s (.item hv hs), fun members hm => h.keys members (.item hv hm)⟩
  · intro h
    refine ⟨fun s hs => ?_, fun members hm => ?_⟩
    · cases hs with
      | item hv hs => exact (h _ hv).strings s hs
    · cases hm with
      | item hv hm => exact (h _ hv).keys members hm

theorem encodable_obj {members : List (Text × Value)} :
    (Value.obj members).Encodable ↔ ∀ m ∈ members, Encodable m.1 ∧ m.2.Encodable := by
  constructor
  · intro h m hm
    exact ⟨h.keys members (.self _) m hm, fun s hs => h.strings s (.member hm hs),
      fun inner hinner => h.keys inner (.member hm hinner)⟩
  · intro h
    refine ⟨fun s hs => ?_, fun inner hinner => ?_⟩
    · cases hs with
      | member hm hs => exact (h _ hm).2.strings s hs
    · cases hinner with
      | self => exact fun m hm => (h m hm).1
      | member hm hinner => exact (h _ hm).2.keys inner hinner

/-- A value that is no string, no array and no object has no strings and keys. -/
theorem encodable_plain {v : Value} (hstr : ∀ s, v ≠ .str s) (hlist : ∀ items, v ≠ .list items)
    (hobj : ∀ members, v ≠ .obj members) : v.Encodable := by
  refine ⟨fun s hs => ?_, fun members hm => ?_⟩
  · cases hs with
    | self => exact absurd rfl (hstr s)
    | item => exact absurd rfl (hlist _)
    | member => exact absurd rfl (hobj _)
  · cases hm with
    | self => exact absurd rfl (hobj members)
    | item => exact absurd rfl (hlist _)
    | member => exact absurd rfl (hobj _)

/-! ## Writing -/

@[simp] theorem encodable_writeString {s : Text} : Encodable (writeString s) ↔ Encodable s := by
  have hpoint : ∀ c, Encodable (writeCodePoint c) ↔ ∀ index, c ≠ .surrogate index := by
    intro c
    cases c with
    | char c => exact iff_of_true (encodable_ofString _) fun index heq => by cases heq
    | surrogate index =>
      rw [writeCodePoint, encodable_cons, and_iff_left encodable_nil]
      exact fun _ heq => by cases heq
  have hinside : Encodable (s.flatMap writeCodePoint) ↔ Encodable s := by
    induction s with
    | nil => exact Iff.rfl
    | cons c s ih => rw [List.flatMap_cons, encodable_append, hpoint, ih, encodable_cons]
  simp [writeString, hinside]

@[simp] theorem encodable_lineBreak (indent depth : Nat) : Encodable (lineBreak indent depth) := by
  refine encodable_nil.of_mem fun c hc => Or.inr ?_
  rcases List.mem_cons.mp hc with rfl | hc
  · exact ⟨'\n', rfl⟩
  · exact ⟨' ', List.eq_of_mem_replicate hc⟩

section

variable {indent depth : Nat}

theorem encodable_writeItems {items : List Value}
    (h : ∀ v ∈ items, Encodable (write indent depth v) ↔ v.Encodable) :
    Encodable (writeItems indent depth items) ↔ ∀ v ∈ items, v.Encodable := by
  induction items with
  | nil => simp [writeItems]
  | cons v items ih =>
    obtain ⟨hv, hitems⟩ := List.forall_mem_cons.mp h
    simp [writeItems, hv, ih hitems]

theorem encodable_writeMembers {members : List (Text × Value)}
    (h : ∀ m ∈ members, Encodable (write indent depth m.2) ↔ m.2.Encodable) :
    Encodable (writeMembers indent depth members) ↔
      ∀ m ∈ members, Encodable m.1 ∧ m.2.Encodable := by
  induction members with
  | nil => simp [writeMembers]
  | cons m members ih =>
    obtain ⟨key, v⟩ := m
    obtain ⟨hv, hmembers⟩ := List.forall_mem_cons.mp h
    simp [writeMembers, hv, ih hmembers, and_assoc]

end

theorem encodable_write (indent depth : Nat) (v : Value) :
    Encodable (write indent depth v) ↔ v.Encodable := by
  induction v using Value.induction generalizing depth with
  | null => simp [write, encodable_plain]
  | bool b => simp [write, encodable_plain]
  | int n => simp [write, encodable_plain]
  | float x => simp [write, writeNumber, encodable_plain]
  | str s => rw [write, encodable_writeString, encodable_str]
  | list items ih =>
    rw [encodable_list]
    cases items with
    | nil => simp [write]
    | cons v items =>
      obtain ⟨hv, hitems⟩ := List.forall_mem_cons.mp ih
      have hothers := encodable_writeItems fun v hmem => hitems v hmem (depth + 1)
      simp [write, hv, hothers]
  | obj members ih =>
    rw [encodable_obj]
    cases members with
    | nil => simp [write]
    | cons m members =>
      obtain ⟨key, v⟩ := m
      obtain ⟨hv, hmembers⟩ := List.forall_mem_cons.mp ih
      have hothers := encodable_writeMembers fun m hmem => hmembers m hmem (depth + 1)
      simp [write, hv, hothers, and_assoc]

/-- A value has a layout with bytes exactly if it has no lone surrogates. -/
theorem encodable_layOut (indent : Int) (v : Value) :
    Encodable (layOut indent v) ↔ v.Encodable := encodable_write indent.toNat 0 v

/-- Every value is written with a visible character at its start. -/
theorem opens_write (indent depth : Nat) (v : Value) : Opens (write indent depth v) := by
  have hnumber : ∀ n : Grammar.Number, Opens n.text := by
    intro n
    have h := opens_number n []
    rwa [List.append_nil] at h
  cases v with
  | null => exact opens_char (by decide) _
  | bool b => cases b <;> exact opens_char (by decide) _
  | int z =>
    obtain ⟨n, htext, -⟩ := exists_integer z
    rw [write, ← htext]
    exact hnumber n
  | float x =>
    cases x with
    | finite negative rank =>
      obtain ⟨n, htext, -⟩ := exists_float negative rank
      rw [write, ← htext]
      exact hnumber n
    | infinite negative => cases negative <;> exact opens_char (by decide) _
    | nan => exact opens_char (by decide) _
  | str s => exact opens_char (by decide) _
  | list items => cases items <;> exact opens_char (by decide) _
  | obj members => cases members <;> exact opens_char (by decide) _

theorem not_isBlank_layOut (indent : Int) (v : Value) :
    Text.isBlank (layOut indent v) = false := (opens_write indent.toNat 0 v).not_isBlank []

end TextTidy.Json
