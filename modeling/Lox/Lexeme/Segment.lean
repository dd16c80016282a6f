import Lox.Lexeme.Basic
import Lox.Text.Utf8.Basic

namespace Lox

inductive Segment.Kind
  | blank
  | comment
  | symbol (token : Token)
  | quoted
  | unclosed
  | number
  | word
  | stray
  deriving DecidableEq

-- The bytes of a source fall apart, from left to right and with nothing left out, into blanks,
-- comments, lexemes, and bytes that can begin none of these. A lexeme is always the longest that
-- its first bytes allow.
structure Segment where
  kind  : Segment.Kind
  bytes : List UInt8
  deriving DecidableEq

namespace Segment

def newline : UInt8 := '\n'.toUInt8

def quote : UInt8 := '"'.toUInt8

-- What a byte is taken for where only ASCII characters matter. Any other byte gives a character
-- that no symbol, number or word holds, so segments can be cut without decoding the source.
def char (b : UInt8) : Char :=
  Char.ofUInt8 b

def isBlank (b : UInt8) : Bool :=
  char b == ' ' || char b == '\t' || char b == '\r' || char b == '\n'

def isDigit (b : UInt8) : Bool :=
  (char b).isDigit

def isWordStart (b : UInt8) : Bool :=
  (char b).isAlpha || char b == '_'

def isWordPart (b : UInt8) : Bool :=
  (char b).isAlphanum || char b == '_'

def symbol? : Char → Option Token
  | '('    => some .leftParen
  | ')'    => some .rightParen
  | '\x7b' => some .leftBrace
  | '\x7d' => some .rightBrace
  | ','    => some .comma
  | '.'    => some .dot
  | '-'    => some .minus
  | '+'    => some .plus
  | ';'    => some .semicolon
  | '/'    => some .slash
  | '*'    => some .star
  | '!'    => some .bang
  | '='    => some .equal
  | '>'    => some .greater
  | '<'    => some .less
  | _      => none

def symbolEqual? : Char → Option Token
  | '!' => some .bangEqual
  | '=' => some .equalEqual
  | '>' => some .greaterEqual
  | '<' => some .lessEqual
  | _   => none

-- A string runs to the next quote, over any number of lines, and nothing in it stands for a quote.
-- Without another quote all that is left belongs to the string that was never closed.
def cutQuoted (b : UInt8) (bytes : List UInt8) : Segment × List UInt8 :=
  match bytes.dropWhile (· != quote) with
  | []        => (⟨.unclosed, b :: bytes⟩, [])
  | q :: rest => (⟨.quoted, b :: bytes.takeWhile (· != quote) ++ [q]⟩, rest)

def cutNumber (b : UInt8) (bytes : List UInt8) : Segment × List UInt8 :=
  let whole := b :: bytes.takeWhile isDigit
  match bytes.dropWhile isDigit with
  | point :: digit :: rest =>
    if char point == '.' && isDigit digit then
      (⟨.number, whole ++ point :: digit :: rest.takeWhile isDigit⟩, rest.dropWhile isDigit)
    else (⟨.number, whole⟩, point :: digit :: rest)
  | rest => (⟨.number, whole⟩, rest)

def cutWord (b : UInt8) (bytes : List UInt8) : Segment × List UInt8 :=
  (⟨.word, b :: bytes.takeWhile isWordPart⟩, bytes.dropWhile isWordPart)

def cutComment (b : UInt8) (bytes : List UInt8) : Segment × List UInt8 :=
  (⟨.comment, b :: bytes.takeWhile (· != newline)⟩, bytes.dropWhile (· != newline))

def cutSymbol (b : UInt8) (bytes : List UInt8) : Segment × List UInt8 :=
  match symbol? (char b) with
  | none       => (⟨.stray, [b]⟩, bytes)
  | some token =>
    -- The longer symbol is taken where both begin.
    match symbolEqual? (char b), bytes with
    | some token', e :: rest =>
      if char e == '=' then (⟨.symbol token', [b, e]⟩, rest) else (⟨.symbol token, [b]⟩, bytes)
    | _, _ => (⟨.symbol token, [b]⟩, bytes)

def startsComment (b : UInt8) : List UInt8 → Bool
  | []      => false
  | b' :: _ => char b == '/' && char b' == '/'

def cut (b : UInt8) (bytes : List UInt8) : Segment × List UInt8 :=
  if isBlank b then (⟨.blank, [b]⟩, bytes)
  else if b == quote then cutQuoted b bytes
  else if isDigit b then cutNumber b bytes
  else if isWordStart b then cutWord b bytes
  else if startsComment b bytes then cutComment b bytes
  else cutSymbol b bytes

theorem cutQuoted_bytes (b : UInt8) (bytes : List UInt8) :
    (cutQuoted b bytes).1.bytes ++ (cutQuoted b bytes).2 = b :: bytes := by
  unfold cutQuoted
  split
  case h_1 => simp
  case h_2 q rest h =>
    simp only [List.cons_append, List.append_assoc, List.nil_append]
    rw [← h, List.takeWhile_append_dropWhile]

theorem cutNumber_bytes (b : UInt8) (bytes : List UInt8) :
    (cutNumber b bytes).1.bytes ++ (cutNumber b bytes).2 = b :: bytes := by
  have hw := List.takeWhile_append_dropWhile (p := isDigit) (l := bytes)
  unfold cutNumber
  split
  case h_1 point digit rest h =>
    rw [h] at hw
    split <;> simp [List.takeWhile_append_dropWhile, hw]
  case h_2 => simp [hw]

theorem cutSymbol_bytes (b : UInt8) (bytes : List UInt8) :
    (cutSymbol b bytes).1.bytes ++ (cutSymbol b bytes).2 = b :: bytes := by
  unfold cutSymbol
  repeat' split
  all_goals simp

theorem cut_bytes (b : UInt8) (bytes : List UInt8) :
    (cut b bytes).1.bytes ++ (cut b bytes).2 = b :: bytes := by
  unfold cut
  repeat' split
  case isTrue => rfl
  all_goals
    simp [cutQuoted_bytes, cutNumber_bytes, cutSymbol_bytes, cutWord, cutComment,
      List.takeWhile_append_dropWhile]

theorem cut_bytes_ne_nil (b : UInt8) (bytes : List UInt8) : (cut b bytes).1.bytes ≠ [] := by
  unfold cut cutQuoted cutNumber cutWord cutComment cutSymbol
  repeat' split
  all_goals simp

theorem length_cut_rest_le (b : UInt8) (bytes : List UInt8) :
    (cut b bytes).2.length ≤ bytes.length := by
  have h := congrArg List.length (cut_bytes b bytes)
  have hp := List.length_pos_iff.mpr <| cut_bytes_ne_nil b bytes
  simp only [List.length_append, List.length_cons] at h
  omega

def ofBytes : List UInt8 → List Segment
  | []         => []
  | b :: bytes => (cut b bytes).1 :: ofBytes (cut b bytes).2
termination_by bytes => bytes.length
decreasing_by exact Nat.lt_succ_of_le <| length_cut_rest_le b bytes

theorem ofBytes_nil : ofBytes [] = [] := by
  rw [ofBytes]

theorem ofBytes_cons (b : UInt8) (bytes : List UInt8) :
    ofBytes (b :: bytes) = (cut b bytes).1 :: ofBytes (cut b bytes).2 := by
  rw [ofBytes]

theorem flatMap_bytes_ofBytes (bytes : List UInt8) :
    (ofBytes bytes).flatMap Segment.bytes = bytes := by
  fun_induction ofBytes bytes
  case case1 => rfl
  case case2 b bytes hi => rw [List.flatMap_cons, hi, cut_bytes]

def newlines (s : Segment) : Nat :=
  s.bytes.count newline

end Segment
end Lox
