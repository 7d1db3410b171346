import TextTidy.Json.Value
import TextTidy.Text.Digits

/-!
# The parts of a value

Induction over values, the values inside a value, and how deep they nest.
-/

namespace TextTidy.Json

/-- Induction over values: what is shown of an array or an object may use what holds of all that it
    holds. -/
theorem Value.induction {motive : Value → Prop} (null : motive .null)
    (bool : ∀ b, motive (.bool b)) (int : ∀ n, motive (.int n)) (float : ∀ x, motive (.float x))
    (str : ∀ s, motive (.str s))
    (list : ∀ items, (∀ v ∈ items, motive v) → motive (.list items))
    (obj : ∀ members, (∀ m ∈ members, motive m.2) → motive (.obj members)) (v : Value) :
    motive v := by
  refine @Value.rec motive (fun items => ∀ v ∈ items, motive v)
    (fun members => ∀ m ∈ members, motive m.2) (fun m => motive m.2)
    null bool int float str list obj ?_ ?_ ?_ ?_ ?_ v
  · intro v hv
    cases hv
  · intro v items hfirst hothers w hw
    rcases List.mem_cons.mp hw with rfl | hin
    · exact hfirst
    · exact hothers w hin
  · intro m hm
    cases hm
  · intro m members hfirst hothers m' hm
    rcases List.mem_cons.mp hm with rfl | hin
    · exact hfirst
    · exact hothers m' hin
  · intro key v hv
    exact hv

/-- A value inside a value, that one included. -/
inductive Part : Value → Value → Prop
  | self (v : Value) : Part v v
  | item {w v : Value} {items : List Value} (hv : v ∈ items) (h : Part w v) : Part w (.list items)
  | member {w : Value} {m : Text × Value} {members : List (Text × Value)} (hm : m ∈ members)
      (h : Part w m.2) : Part w (.obj members)

mutual

/-- How many arrays and objects of a value are open at once. -/
def Value.depth : Value → Nat
  | .null | .bool _ | .int _ | .float _ | .str _ => 0
  | .list items => itemsDepth items + 1
  | .obj members => membersDepth members + 1

def itemsDepth : List Value → Nat
  | [] => 0
  | v :: others => max v.depth (itemsDepth others)

def membersDepth : List (Text × Value) → Nat
  | [] => 0
  | (_, v) :: others => max v.depth (membersDepth others)

end

theorem itemsDepth_le {items : List Value} {levels : Nat} :
    itemsDepth items ≤ levels ↔ ∀ v ∈ items, v.depth ≤ levels := by
  induction items with
  | nil => simp [itemsDepth]
  | cons v items ih => rw [itemsDepth, Nat.max_le, ih, List.forall_mem_cons]

theorem membersDepth_le {members : List (Text × Value)} {levels : Nat} :
    membersDepth members ≤ levels ↔ ∀ m ∈ members, m.2.depth ≤ levels := by
  induction members with
  | nil => simp [membersDepth]
  | cons m members ih =>
    obtain ⟨key, v⟩ := m
    rw [membersDepth, Nat.max_le, ih, List.forall_mem_cons]

theorem Value.depth_list_le {items : List Value} {levels : Nat} :
    (Value.list items).depth ≤ levels + 1 ↔ ∀ v ∈ items, v.depth ≤ levels := by
  rw [Value.depth, Nat.succ_le_succ_iff, itemsDepth_le]

theorem Value.depth_obj_le {members : List (Text × Value)} {levels : Nat} :
    (Value.obj members).depth ≤ levels + 1 ↔ ∀ m ∈ members, m.2.depth ≤ levels := by
  rw [Value.depth, Nat.succ_le_succ_iff, membersDepth_le]

/-- An array that fits some levels leaves one level less to its items. -/
theorem Value.depth_list_cases {items : List Value} {levels : Nat}
    (h : (Value.list items).depth ≤ levels) :
    ∃ inside, levels = inside + 1 ∧ ∀ v ∈ items, v.depth ≤ inside := by
  cases levels with
  | zero =>
    rw [Value.depth] at h
    omega
  | succ inside => exact ⟨inside, rfl, Value.depth_list_le.mp h⟩

theorem Value.depth_obj_cases {members : List (Text × Value)} {levels : Nat}
    (h : (Value.obj members).depth ≤ levels) :
    ∃ inside, levels = inside + 1 ∧ ∀ m ∈ members, m.2.depth ≤ inside := by
  cases levels with
  | zero =>
    rw [Value.depth] at h
    omega
  | succ inside => exact ⟨inside, rfl, Value.depth_obj_le.mp h⟩

/-! ## Values that can be written and read -/

/-- What a value and each value inside must be like to be read back, infinities apart: an integer is
    not too long, a number is one, and the keys of an object differ. -/
def Value.Regular : Value → Prop
  | .int n => Binary64.digitCount n.natAbs ≤ Text.maxIntegerDigits
  | .float x => x ≠ .nan
  | .obj members => (members.map Prod.fst).Nodup
  | _ => True

/-- Whether no number inside a value is infinite. -/
def Value.Finite (v : Value) : Prop := ∀ negative, ¬ Part (.float (.infinite negative)) v

end TextTidy.Json
