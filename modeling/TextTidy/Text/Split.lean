import TextTidy.CodePoint

/-!
# Splitting at a character

The parts of a text, or of any list, between the places where one member stands. There is always one
part more than there are such places, so joining the parts again gives the text back.
-/

namespace TextTidy.Text

/-- The parts of a list between the places of `separator`. -/
def splitOn {α : Type} [DecidableEq α] (separator : α) : List α → List (List α)
  | [] => [[]]
  | c :: rest =>
    if c = separator then [] :: splitOn separator rest
    else
      match splitOn separator rest with
      | [] => [[c]]
      | first :: others => (c :: first) :: others

/-- Parts joined with `separator` between them. -/
def joinWith {α : Type} (separator : α) : List (List α) → List α
  | [] => []
  | [part] => part
  | part :: next :: others => part ++ separator :: joinWith separator (next :: others)

theorem splitOn_ne_nil {α : Type} [DecidableEq α] (separator : α) (s : List α) :
    splitOn separator s ≠ [] := by
  cases s with
  | nil => simp [splitOn]
  | cons c rest =>
    rw [splitOn]
    split
    · simp
    · split <;> simp

theorem joinWith_splitOn {α : Type} [DecidableEq α] (separator : α) (s : List α) :
    joinWith separator (splitOn separator s) = s := by
  induction s with
  | nil => rfl
  | cons c rest ih =>
    rw [splitOn]
    cases hs : splitOn separator rest with
    | nil => exact absurd hs (splitOn_ne_nil separator rest)
    | cons first others =>
      rw [hs] at ih
      split
      · rename_i hc
        simp [joinWith, ih, hc]
      · cases others with
        | nil => simpa [joinWith] using ih
        | cons next others => simpa [joinWith] using ih

end TextTidy.Text
