import TextTidy.Proofs.Css.Format

/-!
# Where the innermost blocks stand

The scan for blocks goes through a text once, and behind a block it goes on behind its closing
brace. Nothing is lost in this way, since no other block can begin inside one: the scan finds every
pair of braces with no brace between them, whatever braces without a partner stand around, and it
finds them in the order of their places.
-/

namespace TextTidy.Css

/-- An opening brace stands at one place and a closing one at a later place, with no brace
    between. -/
structure Encloses (css : Text) (i j : Nat) : Prop where
  order : i < j
  opening : css[i]? = some (.char '{')
  closing : css[j]? = some (.char '}')
  free : ∀ k c, i < k → k < j → css[k]? = some c → isBrace c = false

/-- An opening brace has one closing brace at most. -/
theorem Encloses.unique {css : Text} {i j j' : Nat} (h : Encloses css i j)
    (h' : Encloses css i j') : j = j' := by
  have hclosing : isBrace (.char '}') = true := by decide
  rcases Nat.lt_trichotomy j j' with hlt | heq | hlt
  · have hfree := h'.free j _ h.order hlt h.closing
    rw [hclosing] at hfree
    cases hfree
  · exact heq
  · have hfree := h.free j' _ h'.order hlt h'.closing
    rw [hclosing] at hfree
    cases hfree

variable {c : CodePoint} {s : Text}

theorem encloses_cons_succ {i j : Nat} : Encloses (c :: s) (i + 1) (j + 1) ↔ Encloses s i j := by
  constructor
  · intro h
    exact ⟨Nat.lt_of_succ_lt_succ h.order, h.opening, h.closing, fun k d hi hj hd =>
      h.free (k + 1) d (Nat.succ_lt_succ hi) (Nat.succ_lt_succ hj) hd⟩
  · intro h
    refine ⟨Nat.succ_lt_succ h.order, h.opening, h.closing, fun k d hi hj hd => ?_⟩
    cases k with
    | zero => omega
    | succ k => exact h.free k d (by omega) (by omega) hd

/-- What the first brace of a text encloses. -/
theorem encloses_zero_iff {j : Nat} :
    Encloses (c :: s) 0 (j + 1) ↔
      ∃ body rest, Braceless body ∧ c = .char '{' ∧ s = body ++ .char '}' :: rest ∧
        body.length = j := by
  constructor
  · intro h
    have hclosing : s[j]? = some (.char '}') := h.closing
    obtain ⟨hj, hget⟩ := List.getElem?_eq_some_iff.mp hclosing
    refine ⟨s.take j, s.drop (j + 1), ?_, Option.some.inj h.opening, ?_, by simp; omega⟩
    · intro d hd
      obtain ⟨k, hk, rfl⟩ := List.getElem_of_mem hd
      have hkj : k < j := by
        rw [List.length_take] at hk
        omega
      refine h.free (k + 1) _ (Nat.succ_pos k) (Nat.succ_lt_succ hkj) ?_
      rw [List.getElem?_cons_succ, List.getElem_take, List.getElem?_eq_getElem (by omega)]
    · rw [← hget, ← List.drop_eq_getElem_cons hj, List.take_append_drop]
  · rintro ⟨body, rest, hbody, rfl, rfl, rfl⟩
    refine ⟨Nat.succ_pos _, rfl, by simp, fun k d hk hj hd => ?_⟩
    cases k with
    | zero => omega
    | succ k =>
      rw [List.getElem?_cons_succ, List.getElem?_append_left (by omega)] at hd
      exact hbody d (List.mem_of_getElem? hd)

/-! ## All of them, in order -/

/-- Some pairs of places are those of the innermost blocks, from left to right. -/
structure Lists (spans : List (Nat × Nat)) (css : Text) : Prop where
  complete : ∀ i j, (i, j) ∈ spans ↔ Encloses css i j
  sorted : spans.Pairwise fun p q => p.1 < q.1

/-- The same places behind one more character. -/
def later (spans : List (Nat × Nat)) : List (Nat × Nat) := spans.map fun p => (p.1 + 1, p.2 + 1)

theorem pos_of_mem_later {spans : List (Nat × Nat)} {p : Nat × Nat} (hp : p ∈ later spans) :
    0 < p.1 := by
  obtain ⟨q, -, rfl⟩ := List.mem_map.mp hp
  exact Nat.succ_pos _

theorem sorted_later {spans : List (Nat × Nat)} (h : spans.Pairwise fun p q => p.1 < q.1) :
    (later spans).Pairwise fun p q => p.1 < q.1 :=
  List.pairwise_map.mpr (h.imp Nat.succ_lt_succ)

theorem Lists.mem_later_iff {spans : List (Nat × Nat)} (h : Lists spans s) (i j : Nat) :
    (i + 1, j) ∈ later spans ↔ Encloses (c :: s) (i + 1) j := by
  cases j with
  | zero =>
    refine iff_of_false (fun hp => ?_) fun henc => absurd henc.order (Nat.not_lt_zero _)
    obtain ⟨q, -, hq⟩ := List.mem_map.mp hp
    cases hq
  | succ j =>
    rw [encloses_cons_succ, ← h.complete, later]
    simp

/-- Behind a character that encloses nothing the list is the same. -/
theorem Lists.cons {spans : List (Nat × Nat)} (h : Lists spans s)
    (hnone : ∀ j, ¬ Encloses (c :: s) 0 j) : Lists (later spans) (c :: s) := by
  refine ⟨fun i j => ?_, sorted_later h.sorted⟩
  cases i with
  | zero => exact iff_of_false (fun hp => absurd (pos_of_mem_later hp) (Nat.lt_irrefl 0)) (hnone j)
  | succ i => exact h.mem_later_iff i j

/-- What the first brace encloses comes first. -/
theorem Lists.cons_block {spans : List (Nat × Nat)} (h : Lists spans s) {j : Nat}
    (hj : Encloses (c :: s) 0 j) : Lists ((0, j) :: later spans) (c :: s) := by
  refine ⟨fun i k => ?_, ?_⟩
  · cases i with
    | zero =>
      constructor
      · intro hp
        rcases List.mem_cons.mp hp with heq | hp
        · cases heq
          exact hj
        · exact absurd (pos_of_mem_later hp) (Nat.lt_irrefl 0)
      · intro hk
        rw [hj.unique hk]
        exact List.mem_cons_self
    | succ i =>
      rw [List.mem_cons, or_iff_right (by simp)]
      exact h.mem_later_iff i k
  · exact List.pairwise_cons.mpr ⟨fun p hp => pos_of_mem_later hp, sorted_later h.sorted⟩

/-- The blocks of a text are what stands between the braces of every pair with no brace between
them, each pair once and in order. -/
theorem blocks_between_braces (css : Text) :
    ∃ spans : List (Nat × Nat), (∀ i j, (i, j) ∈ spans ↔ Encloses css i j) ∧
      spans.Pairwise (fun p q => p.1 < q.1) ∧
      blocks css = spans.map fun p => (css.take p.2).drop (p.1 + 1) := by
  suffices h : ∃ spans, Lists spans css ∧
      blocks css = spans.map fun p => (css.take p.2).drop (p.1 + 1) by
    obtain ⟨spans, hspans, hblocks⟩ := h
    exact ⟨spans, hspans.complete, hspans.sorted, hblocks⟩
  induction css with
  | nil =>
    refine ⟨[], ⟨fun i j => ?_, .nil⟩, rfl⟩
    exact iff_of_false (List.not_mem_nil) fun h => by cases h.opening
  | cons c s ih =>
    obtain ⟨spans, hspans, hlater⟩ := ih
    have hmap : (later spans).map (fun p => ((c :: s).take p.2).drop (p.1 + 1)) = blocks s := by
      rw [hlater, later, List.map_map]
      rfl
    rcases blocks_cons_cases c s with ⟨body, rest, hbody, rfl, hs, hblocks⟩ | ⟨hnone, hblocks⟩
    · have hfirst : Encloses (.char '{' :: s) 0 (body.length + 1) :=
        encloses_zero_iff.mpr ⟨body, rest, hbody, rfl, hs, rfl⟩
      refine ⟨_, hspans.cons_block hfirst, ?_⟩
      rw [List.map_cons, hmap, hblocks, hs]
      simp
    · refine ⟨_, hspans.cons fun j hj => ?_, by rw [hmap, hblocks]⟩
      cases j with
      | zero => exact absurd hj.order (Nat.lt_irrefl 0)
      | succ j =>
        obtain ⟨body, rest, hbody, hc, hs, -⟩ := encloses_zero_iff.mp hj
        exact hnone ⟨body, rest, hbody, hc, hs⟩

end TextTidy.Css
