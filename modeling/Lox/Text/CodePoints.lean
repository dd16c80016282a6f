namespace Lox.CodePoints

-- Sets of code points are given by their boundaries: the code points, in rising order, at which
-- membership begins or ends.
def within : List Nat → Nat → Bool
  | [],      _ => false
  | b :: bs, c => if c < b then false else !(within bs c)

end Lox.CodePoints
