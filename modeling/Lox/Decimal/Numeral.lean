import Lox.Decimal.Shortest

namespace Lox.Numeral

def digitValue (c : Char) : Nat :=
  c.toNat - '0'.toNat

def digit (n : Nat) : Char :=
  Char.ofNat ('0'.toNat + n)

def ofDigits (digits : List Char) : Nat :=
  digits.foldl (fun n c => 10 * n + digitValue c) 0

def read? (text : List Char) : Option Float :=
  let whole := text.takeWhile Char.isDigit
  match text.dropWhile Char.isDigit with
  | []            => if whole.isEmpty then none else some (Double.nearest (ofDigits whole) 1)
  | c :: fraction =>
    if c = '.' ∧ whole ≠ [] ∧ fraction ≠ [] ∧ fraction.all Char.isDigit then
      some <| Double.nearest (ofDigits (whole ++ fraction)) (Nat.pow 10 fraction.length)
    else none

def fractionDigits : Nat → Nat → List Char
  | 0,          _    => []
  | places + 1, part =>
    if part = 0 then []
    else digit (part * 10 / Decimal.one) :: fractionDigits places (part * 10 % Decimal.one)

def fraction (part : Nat) : List Char :=
  match fractionDigits 1074 part with
  | []     => []
  | digits => '.' :: digits

def ofUnits (units : Nat) : List Char :=
  Nat.toDigits 10 (units / Decimal.one) ++ fraction (units % Decimal.one)

-- The fewest digits that read back, never with an exponent. The sign is that of the bits, so
-- negative zero is told from zero, and what is not finite is written as a word.
def write (x : Float) : String :=
  let sign := if Double.isNegative x then ['-'] else []
  let bits := Double.magnitudeBits x
  if Double.infinity < bits then "NaN"
  else if bits = Double.infinity then String.ofList (sign ++ ['i', 'n', 'f'])
  else String.ofList (sign ++ ofUnits (Decimal.shortest bits))

end Lox.Numeral
