import Lox.Text.Extending
import Lox.Text.Unprintable

namespace Lox.Text

-- Within quotes every character can be told from the ones around it. So one that has no shape of
-- its own, or would join the one before it, is written as its code point in hexadecimal digits.
def escaped (c : Char) : List Char :=
  match c with
  | '\x00' => ['\\', '0']
  | '\t'   => ['\\', 't']
  | '\r'   => ['\\', 'r']
  | '\n'   => ['\\', 'n']
  | '\''   => ['\\', '\'']
  | '"'    => ['\\', '"']
  | '\\'   => ['\\', '\\']
  | c      =>
    if isExtending c || isUnprintable c then
      ['\\', 'u', '\x7b'] ++ Nat.toDigits 16 c.toNat ++ ['\x7d']
    else [c]

def quoted (text : String) : String :=
  String.ofList <| '"' :: text.toList.flatMap escaped ++ ['"']

end Lox.Text
