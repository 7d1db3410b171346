import Mathlib.Data.List.Induction
import Mathlib.Data.List.Nodup
import TextTidy.Proofs.Json.Grammar

/-!
# Members of objects

Putting pairs one after the other leaves every key once, at its first place and with its last value.
Pairs whose keys differ stay as they are.
-/

namespace TextTidy.Json

open Grammar

variable {key : Text} {value : Value} {ms pairs : List (Text × Value)}

theorem put_of_not_mem (h : key ∉ ms.map Prod.fst) : put key value ms = ms ++ [(key, value)] := by
  induction ms with
  | nil => rfl
  | cons m ms ih =>
    obtain ⟨k, v⟩ := m
    have hk : k ≠ key := by
      rintro rfl
      exact h (by simp)
    have hrest : key ∉ ms.map Prod.fst := fun hin => h (List.mem_cons_of_mem _ hin)
    rw [put, if_neg hk, ih hrest]
    rfl

/-- With a key that is there, only its value changes. -/
theorem put_of_mem (hnodup : (ms.map Prod.fst).Nodup) (h : key ∈ ms.map Prod.fst) :
    put key value ms = ms.map fun m => if m.1 = key then (key, value) else m := by
  induction ms with
  | nil => simp at h
  | cons m ms ih =>
    obtain ⟨k, v⟩ := m
    rw [List.map_cons, List.nodup_cons] at hnodup
    by_cases hk : k = key
    · have hothers : ∀ m ∈ ms, (if m.1 = key then (key, value) else m) = m := by
        intro m hm
        have hne : m.1 ≠ key := by
          intro heq
          refine hnodup.1 ?_
          show k ∈ ms.map Prod.fst
          rw [hk, ← heq]
          exact List.mem_map_of_mem hm
        rw [if_neg hne]
      rw [put, if_pos hk, List.map_cons, if_pos hk, List.map_congr_left hothers, List.map_id', hk]
    · have hrest : key ∈ ms.map Prod.fst := by
        rcases List.mem_cons.mp h with heq | hin
        · exact absurd heq.symm hk
        · exact hin
      rw [put, if_neg hk, List.map_cons, if_neg hk, ih hnodup.2 hrest]

theorem mem_put {m : Text × Value} (h : m ∈ put key value ms) : m = (key, value) ∨ m ∈ ms := by
  induction ms with
  | nil => exact Or.inl (List.mem_singleton.mp h)
  | cons a ms ih =>
    obtain ⟨k, v⟩ := a
    unfold put at h
    split at h
    · rename_i hk
      rcases List.mem_cons.mp h with rfl | hin
      · exact Or.inl (by rw [hk])
      · exact Or.inr (List.mem_cons_of_mem _ hin)
    · rcases List.mem_cons.mp h with rfl | hin
      · exact Or.inr List.mem_cons_self
      · rcases ih hin with heq | hmem
        · exact Or.inl heq
        · exact Or.inr (List.mem_cons_of_mem _ hmem)

theorem members_concat (pairs : List (Text × Value)) (key : Text) (value : Value) :
    members (pairs ++ [(key, value)]) = put key value (members pairs) := by
  simp [members]

theorem nodup_members (pairs : List (Text × Value)) : ((members pairs).map Prod.fst).Nodup := by
  induction pairs using List.reverseRecOn with
  | nil => exact List.nodup_nil
  | append_singleton pairs m ih =>
    obtain ⟨key, value⟩ := m
    rw [members_concat]
    by_cases h : key ∈ (members pairs).map Prod.fst
    · have hkeys : (Prod.fst ∘ fun m : Text × Value => if m.1 = key then (key, value) else m) =
          Prod.fst := by
        funext m
        by_cases hm : m.1 = key <;> simp [hm]
      rw [put_of_mem ih h, List.map_map, hkeys]
      exact ih
    · rw [put_of_not_mem h, List.map_append]
      exact List.Nodup.append ih (List.nodup_singleton _) (by simpa using h)

theorem mem_of_mem_members {m : Text × Value} (h : m ∈ members pairs) : m ∈ pairs := by
  induction pairs using List.reverseRecOn with
  | nil => simp [members] at h
  | append_singleton pairs a ih =>
    obtain ⟨key, value⟩ := a
    rw [members_concat] at h
    rcases mem_put h with rfl | hin
    · simp
    · exact List.mem_append_left _ (ih hin)

/-- Pairs whose keys differ are members as they are. -/
theorem members_of_nodup (h : (pairs.map Prod.fst).Nodup) : members pairs = pairs := by
  induction pairs using List.reverseRecOn with
  | nil => rfl
  | append_singleton pairs m ih =>
    obtain ⟨key, value⟩ := m
    rw [List.map_append, List.nodup_append] at h
    obtain ⟨hnodup, -, hdisjoint⟩ := h
    have hnew : key ∉ pairs.map Prod.fst := fun hin => hdisjoint key hin key (by simp) rfl
    rw [members_concat, ih hnodup, put_of_not_mem hnew]

/-- With keys that differ, a key has the value that stands behind it. -/
theorem lookup_eq_some_iff_mem (h : (ms.map Prod.fst).Nodup) :
    ms.lookup key = some value ↔ (key, value) ∈ ms := by
  constructor
  · intro hlookup
    obtain ⟨before, behind, rfl, -⟩ := List.lookup_eq_some_iff.mp hlookup
    simp
  · intro hmem
    obtain ⟨before, behind, rfl⟩ := List.append_of_mem hmem
    refine List.lookup_eq_some_iff.mpr ⟨before, behind, rfl, fun m hm => ?_⟩
    rw [List.map_append, List.nodup_append] at h
    simpa using (h.2.2 m.1 (List.mem_map_of_mem hm) key (by simp)).symm

/-! ## Each key at its first place and with its last value -/

theorem eraseDups_concat (keys : List Text) (key : Text) :
    (keys ++ [key]).eraseDups = if key ∈ keys then keys.eraseDups else keys.eraseDups ++ [key] := by
  rw [List.eraseDups_append]
  by_cases h : key ∈ keys
  · simp [List.removeAll, h]
  · simp [List.removeAll, h, List.eraseDups_cons]

theorem lookup_concat (pairs : List (Text × Value)) (key k : Text) (value : Value) :
    (pairs ++ [(key, value)]).reverse.lookup k =
      if k = key then some value else pairs.reverse.lookup k := by
  rw [List.reverse_append, List.reverse_singleton, List.singleton_append, List.lookup_cons]
  by_cases h : k = key
  · simp [h]
  · have hbeq : (k == key) = false := by simpa using h
    rw [hbeq, if_neg h]

theorem exists_lookup (h : key ∈ pairs.map Prod.fst) :
    ∃ value, pairs.reverse.lookup key = some value := by
  rw [← Option.isSome_iff_exists, Option.isSome_iff_ne_none]
  intro hnone
  obtain ⟨m, hm, rfl⟩ := List.mem_map.mp h
  have := List.lookup_eq_none_iff.mp hnone m (List.mem_reverse.mpr hm)
  simp at this

theorem map_fst_settled (pairs : List (Text × Value)) :
    (settled pairs).map Prod.fst = (pairs.map Prod.fst).eraseDups := by
  have hsome : ∀ key ∈ (pairs.map Prod.fst).eraseDups,
      ((pairs.reverse.lookup key).map fun value => (key, value)).map Prod.fst = some key := by
    intro key hkey
    obtain ⟨value, hvalue⟩ := exists_lookup (List.mem_eraseDups.mp hkey)
    rw [hvalue]
    rfl
  rw [settled, List.map_filterMap, List.filterMap_congr hsome, List.filterMap_some]

theorem settled_concat (hnodup : ((settled pairs).map Prod.fst).Nodup) (key : Text)
    (value : Value) :
    settled (pairs ++ [(key, value)]) = put key value (settled pairs) := by
  have hsettled : settled (pairs ++ [(key, value)]) =
      (pairs.map Prod.fst ++ [key]).eraseDups.filterMap fun k =>
        (if k = key then some value else pairs.reverse.lookup k).map fun value => (k, value) := by
    unfold settled
    rw [List.map_append]
    refine List.filterMap_congr fun k _ => ?_
    rw [lookup_concat]
  rw [hsettled, eraseDups_concat]
  by_cases h : key ∈ pairs.map Prod.fst
  · have hmem : key ∈ (settled pairs).map Prod.fst := by
      rw [map_fst_settled]
      exact List.mem_eraseDups.mpr h
    rw [if_pos h, put_of_mem hnodup hmem, settled, List.map_filterMap]
    refine List.filterMap_congr fun k _ => ?_
    by_cases hk : k = key
    · obtain ⟨old, hold⟩ := exists_lookup h
      simp [hk, hold]
    · cases pairs.reverse.lookup k <;> simp [hk]
  · have hmem : key ∉ (settled pairs).map Prod.fst := by
      rw [map_fst_settled]
      exact fun hin => h (List.mem_eraseDups.mp hin)
    rw [if_neg h, put_of_not_mem hmem, List.filterMap_append]
    congr 1
    · refine List.filterMap_congr fun k hk => ?_
      have hne : k ≠ key := by
        rintro rfl
        exact h (List.mem_eraseDups.mp hk)
      rw [if_neg hne]
    · simp

theorem members_eq_settled (pairs : List (Text × Value)) : members pairs = settled pairs := by
  induction pairs using List.reverseRecOn with
  | nil => rfl
  | append_singleton pairs m ih =>
    obtain ⟨key, value⟩ := m
    have hnodup := nodup_members pairs
    rw [ih] at hnodup
    rw [members_concat, settled_concat hnodup, ih]

theorem nodup_settled (pairs : List (Text × Value)) : ((settled pairs).map Prod.fst).Nodup := by
  rw [← members_eq_settled]
  exact nodup_members pairs

end TextTidy.Json
