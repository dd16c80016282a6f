import Lox.Text.Utf8.Basic

namespace Lox

-- What has been written, as bytes. A sink may have room for so many bytes only: a text that is
-- longer than what is left is taken in part and fails, and so does every later text but the empty
-- one.
structure Sink where
  taken : Array UInt8 := #[]
  room  : Option Nat := none

namespace Sink

def write : Sink → String → Bool × Sink
  | ⟨taken, none⟩, text   => (true, ⟨taken ++ Utf8.encode text.toList, none⟩)
  | ⟨taken, some n⟩, text =>
    let bytes := Utf8.encode text.toList
    (bytes.length ≤ n, ⟨taken ++ bytes.take n, some (n - bytes.length)⟩)

def writeLine (s : Sink) (text : String) : Bool × Sink :=
  s.write (text ++ "\n")

def text (s : Sink) : String :=
  Utf8.lossyText s.taken.toList

end Sink
end Lox
