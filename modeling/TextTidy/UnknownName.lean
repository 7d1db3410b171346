import TextTidy.Text.Quoted

/-!
# Unknown names

The error of a name that is none of those a set offers.
-/

namespace TextTidy

/-- A name that was looked for in a set without being there. -/
structure UnknownName where
  /-- The name. -/
  name : String
  /-- What the set calls its members. -/
  among : String
deriving DecidableEq, Repr

/-- The wording of the error. -/
def UnknownName.message (e : UnknownName) : String :=
  Text.quoted e.name ++ " is not a valid " ++ e.among

end TextTidy
