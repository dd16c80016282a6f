import Lox.Decimal.Numeral

namespace Lox

inductive Value
  | nil
  | boolean (b : Bool)
  | number (x : Float)
  | string (text : String)
  deriving DecidableEq, Inhabited

namespace Value

def truthy : Value → Bool
  | nil       => false
  | boolean b => b
  | _         => true

-- The language's own equality, which is not equality of values here: numbers compare as IEEE 754
-- lays down, so NaN differs from itself and both zeros are equal. Values of different types are
-- never equal.
def equal : Value → Value → Bool
  | nil,       nil       => true
  | boolean a, boolean b => a == b
  | number x,  number y  => x == y
  | string s,  string t  => s == t
  | _,         _         => false

def typeName : Value → String
  | nil       => "nil"
  | boolean _ => "bool"
  | number _  => "number"
  | string _  => "string"

def text : Value → String
  | nil           => "nil"
  | boolean true  => "true"
  | boolean false => "false"
  | number x      => Numeral.write x
  | string s      => s

end Value
end Lox
