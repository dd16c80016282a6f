import Lox.Decimal.Double

namespace Lox.Decimal

def one : Nat := Nat.pow 10 1074

def unitsOfBits (bits : Nat) : Nat :=
  Double.unitsOfBits bits * Nat.pow 5 1074

def readsAs (bits units : Nat) : Bool :=
  Double.nearestBits units one == bits

-- Tries the two neighbours of `exact` on the grid of the given power of ten, and then the finer
-- grids. The nearer of two that read back is taken, and the upper one in the middle. All decimals
-- are whole numbers of units of 10^(-1074), which every finite double is, too.
def search (reads : Nat → Bool) (exact : Nat) : Nat → Nat
  | 0         => exact
  | power + 1 =>
    let step := Nat.pow 10 (power + 1)
    let below := exact / step * step
    let above := below + step
    match reads below, reads above with
    | true,  true  => if exact - below < above - exact then below else above
    | true,  false => below
    | false, true  => above
    | false, false => search reads exact power

def shortest (bits : Nat) : Nat :=
  let exact := unitsOfBits bits
  search (readsAs bits) exact ((exact.log2 + 1) * 30103 / 100000 + 1)

end Lox.Decimal
