namespace Lox.Double

-- Every finite double is a natural number of units of 2^(-1074), up to its sign. The bits of its
-- magnitude count these units in steps that double their size with each value of the exponent
-- field: 52 bits of fraction under an exponent field, and infinity where the field is all ones.
def fractionSize : Nat := Nat.pow 2 52

def infinity : Nat := 0x7FF * fractionSize

def one : Nat := Nat.pow 2 1074

def roundDiv (num den : Nat) : Nat :=
  let q := num / den
  let r := num % den
  if 2 * r < den then q
  else if den < 2 * r then q + 1
  else q + q % 2

-- A number below 2^53 units is kept to the unit, and one that has more bits to its first 53 bits,
-- where halves go to the even neighbour. A significand that is rounded up to 54 bits carries into
-- the exponent field by itself, which is why the two parts are added and not put together.
def nearestBits (num den : Nat) : Nat :=
  let units := num * one
  let shift := (units / den).log2 - 52
  min (shift * fractionSize + roundDiv units (den * Nat.pow 2 shift)) infinity

def nearest (num den : Nat) : Float :=
  Float.ofBits (nearestBits num den).toUInt64

def isNegative (x : Float) : Bool :=
  Nat.pow 2 63 ≤ x.toBits.toNat

def magnitudeBits (x : Float) : Nat :=
  x.toBits.toNat % Nat.pow 2 63

def unitsOfBits (bits : Nat) : Nat :=
  if bits < fractionSize then bits
  else (fractionSize + bits % fractionSize) * Nat.pow 2 (bits / fractionSize - 1)

end Lox.Double
