namespace Lox.Utf8

def encode (text : List Char) : List UInt8 :=
  text.flatMap String.utf8EncodeChar

structure Begun where
  value : Nat
  missing : Nat
  least : Nat := 0x80
  greatest : Nat := 0xBF

inductive Start
  | whole (c : Char)
  | begun (b : Begun)
  | illFormed

-- What a first byte tells: the bits of the character in it, how many bytes are missing, and the
-- range of the next one. The ranges after `E0` and `F0` leave out the overlong forms, the one after
-- `ED` the surrogates, and the one after `F4` all that lies above the last code point.
def start (byte : UInt8) : Start :=
  let b := byte.toNat
  if b < 0x80 then .whole (Char.ofNat b)
  else if b < 0xC2 then .illFormed
  else if b < 0xE0 then .begun { value := b - 0xC0, missing := 1 }
  else if b = 0xE0 then .begun { value := 0, missing := 2, least := 0xA0 }
  else if b = 0xED then .begun { value := 0xD, missing := 2, greatest := 0x9F }
  else if b < 0xF0 then .begun { value := b - 0xE0, missing := 2 }
  else if b = 0xF0 then .begun { value := 0, missing := 3, least := 0x90 }
  else if b < 0xF4 then .begun { value := b - 0xF0, missing := 3 }
  else if b = 0xF4 then .begun { value := 4, missing := 3, greatest := 0x8F }
  else .illFormed

namespace Begun

def accepts (u : Begun) (byte : UInt8) : Bool :=
  u.least ≤ byte.toNat && byte.toNat ≤ u.greatest

def extend (u : Begun) (byte : UInt8) : Start :=
  let value := u.value * 64 + (byte.toNat - 0x80)
  if u.missing ≤ 1 then .whole (Char.ofNat value)
  else .begun { value, missing := u.missing - 1 }

end Begun

def Start.entries : Start → List (Option Char)
  | .whole c   => [some c]
  | .begun _   => []
  | .illFormed => [none]

def Start.pending : Start → Option Begun
  | .begun b => some b
  | _        => none

-- There is one entry for each character and one for each longest ill-formed part, so strict and
-- lossy reading are two views of one reader. A byte that a begun character does not accept ends it
-- as ill-formed and is read afresh.
def decodeFrom : Option Begun → List UInt8 → List (Option Char)
  | none,   []            => []
  | some _, []            => [none]
  | none,   byte :: bytes =>
    (start byte).entries ++ decodeFrom (start byte).pending bytes
  | some u, byte :: bytes =>
    if u.accepts byte then
      (u.extend byte).entries ++ decodeFrom (u.extend byte).pending bytes
    else
      none :: ((start byte).entries ++ decodeFrom (start byte).pending bytes)

def decode (bytes : List UInt8) : List (Option Char) :=
  decodeFrom none bytes

def text? (bytes : List UInt8) : Option String :=
  let entries := decode bytes
  if entries.all Option.isSome then some (String.ofList (entries.filterMap id)) else none

def lossyText (bytes : List UInt8) : String :=
  String.ofList <| (decode bytes).map (·.getD '\uFFFD')

end Lox.Utf8
