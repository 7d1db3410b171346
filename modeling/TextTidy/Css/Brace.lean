import TextTidy.CodePoint

/-!
# Brace balance

How far the braces of a stylesheet are from being matched.
-/

namespace TextTidy.Css

/-- The unmatched braces of a text. -/
structure Balance where
  /-- How many blocks are still open at the end. -/
  missing : Nat
  /-- Whether some closing brace had nothing to close. -/
  extra : Bool
deriving DecidableEq, Repr

/-- Whether every brace has its partner. -/
def Balance.balanced (b : Balance) : Bool := b.missing == 0 && !b.extra

/-- The balance of what follows when `depth` blocks are open and `extra` tells whether a closing
    brace had nothing to close. Such a brace does not use up an opening one that comes later. -/
def balanceFrom (depth : Nat) (extra : Bool) : Text → Balance
  | [] => ⟨depth, extra⟩
  | .char '{' :: rest => balanceFrom (depth + 1) extra rest
  | .char '}' :: rest =>
    match depth with
    | 0 => balanceFrom 0 true rest
    | depth + 1 => balanceFrom depth extra rest
  | _ :: rest => balanceFrom depth extra rest

/-- The balance of a text. -/
def balance (css : Text) : Balance := balanceFrom 0 false css

end TextTidy.Css
