import TextTidy.CodePoint
import TextTidy.Binary64

/-!
# JSON values

Values as JSON texts denote them. Numbers written without a point and an exponent are integers of
any size, all others are floating-point numbers. An object keeps its members in order.
-/

namespace TextTidy.Json

/-- A JSON value. -/
inductive Value where
  | null
  | bool (b : Bool)
  | int (n : Int)
  | float (x : Binary64)
  | str (s : Text)
  | list (items : List Value)
  | obj (members : List (Text × Value))

/-- The members with a key set to a value: in its old place when the key is there, at the end when
    it is new. -/
def put (key : Text) (value : Value) : List (Text × Value) → List (Text × Value)
  | [] => [(key, value)]
  | (k, v) :: rest => if k = key then (k, value) :: rest else (k, v) :: put key value rest

/-- The members that a sequence of pairs leaves when each is put in turn: a key keeps its first
    place and takes its last value. -/
def members (pairs : List (Text × Value)) : List (Text × Value) :=
  pairs.foldl (fun done pair => put pair.1 pair.2 done) []

/-- The value of a key. -/
def Value.member? (key : Text) : Value → Option Value
  | .obj members => members.lookup key
  | _ => none

/-- The text of a value that is a string. -/
def Value.text? : Value → Option Text
  | .str s => some s
  | _ => none

end TextTidy.Json
