import Lox.Proofs.Lexing.Boundaries
import Lox.Proofs.Lexing.Items

namespace Lox

open Segment (char newline quote isBlank isDigit isWordStart isWordPart symbol? symbolEqual?
  startsComment cut)
open Utf8 (encode slice? isBoundary)

-- A scanner that walks over the bytes of a source and cuts what it needs out of the source. Unlike
-- a cursor it knows only its position, which may be inside of a character.
structure Scanner where
  position : Nat := 0
  line     : Nat := 1
  ended    : Bool := false

namespace Scanner

def advance (s : Scanner) : Scanner :=
  { s with position := s.position + 1 }

def pass (b : UInt8) (s : Scanner) : Scanner :=
  ⟨s.position + 1, if b == newline then s.line + 1 else s.line, s.ended⟩

def lexeme (s : Scanner) (token : Token) (content : String) : Item :=
  .lexeme ⟨token, content, s.line⟩

def error (s : Scanner) (kind : ScanErrorKind) : Item :=
  .error ⟨kind, s.line⟩

def found (p : Item × Scanner) : Option Item × Scanner :=
  (some p.1, p.2)

section Walking

variable (bytes : List UInt8)

def peek? (s : Scanner) : Option UInt8 :=
  bytes[s.position]?

def peekNext? (s : Scanner) : Option UInt8 :=
  bytes[s.position + 1]?

-- Here and in all that follows, to be without a result is to crash, at a slice that is none or at a
-- number that cannot be read. Not to find what was expected is a result.
def expect? (expected : UInt8) (start : Nat) (s : Scanner) : Option (Option String × Scanner) :=
  if s.peek? bytes == some expected then do
    let content ← slice? bytes start s.advance.position
    some (some content, s.advance)
  else some (none, s)

def skipUntil (stop : UInt8 → Bool) (s : Scanner) : Scanner :=
  match _h : bytes[s.position]? with
  | none   => s
  | some b =>
    if stop b then s
    else skipUntil stop (s.pass b)
termination_by bytes.length - s.position
decreasing_by
  have ⟨hl, _⟩ := List.getElem?_eq_some_iff.mp _h
  exact Nat.sub_lt_sub_left hl <| Nat.lt_succ_self _

def advanceUntil? (stop : UInt8 → Bool) (start : Nat) (s : Scanner) :
    Option (String × Scanner) := do
  let s := skipUntil bytes stop s
  let content ← slice? bytes start s.position
  some (content, s)

def comment? (s : Scanner) : Option Scanner := do
  let (_, s) ← advanceUntil? bytes (· == newline) s.position s
  some s

def string? (start : Nat) (s : Scanner) : Option (Item × Scanner) := do
  let (value, s) ← advanceUntil? bytes (· == quote) (start + 1) s
  match s.peek? bytes with
  | none   => some (s.error .unterminatedString, s)
  | some b =>
    if b == quote then
      let content ← slice? bytes start s.advance.position
      some (s.advance.lexeme (.literal (.string value)) content, s.advance)
    else some (s.advance.error .unterminatedString, s.advance)

def numeral? (start : Nat) (s : Scanner) : Option (String × Scanner) := do
  let (content, s) ← advanceUntil? bytes (!isDigit ·) start s
  if (s.peek? bytes).any (char · == '.') && (s.peekNext? bytes).any isDigit then
    advanceUntil? bytes (!isDigit ·) start s.advance
  else some (content, s)

def number? (start : Nat) (s : Scanner) : Option (Item × Scanner) := do
  let (content, s) ← numeral? bytes start s
  let x ← Numeral.read? content.toList
  some (s.lexeme (.literal (.number x)) content, s)

def word? (start : Nat) (s : Scanner) : Option (Item × Scanner) := do
  let (content, s) ← advanceUntil? bytes (!isWordPart ·) start s
  some (s.lexeme (.ofWord content) content, s)

def oneOrTwo? (single double : Token) (start : Nat) (s : Scanner) : Option (Item × Scanner) := do
  match ← expect? bytes '='.toUInt8 start s with
  | (some content, s) => some (s.lexeme double content, s)
  | (none, s)         =>
    let content ← slice? bytes start s.position
    some (s.lexeme single content, s)

-- What comes of a byte that has just been taken. Its text is cut out before it is known whether the
-- byte is a character at all, so this is the one slice that may be none.
def step? (start : Nat) (b : UInt8) (s : Scanner) : Option (Option Item × Scanner) :=
  let content := (slice? bytes start s.position).getD ""
  if isBlank b then some (none, if b == newline then { s with line := s.line + 1 } else s)
  else if b == quote then found <$> string? bytes start s
  else if isDigit b then found <$> number? bytes start s
  else if isWordStart b then found <$> word? bytes start s
  else
    match symbol? (char b), symbolEqual? (char b) with
    | some single, some double => found <$> oneOrTwo? bytes single double start s
    | some token, none         =>
      if char b == '/' then do
        match ← expect? bytes Piece.slash start s with
        | (some _, s) =>
          let s ← comment? bytes s
          some (none, s)
        | (none, s)   => some (some <| s.lexeme token content, s)
      else some (some <| s.lexeme token content, s)
    | none, _                  => some (some <| s.error .unexpectedCharacter, s)

def round? (s : Scanner) : Option ((Option Item × Scanner) ⊕ Scanner) :=
  if s.ended then some <| .inl (none, s)
  else
    match s.peek? bytes with
    | none   => some <| .inl (some <| s.lexeme .eof "", { s with ended := true })
    | some b => do
      match ← step? bytes s.position b s.advance with
      | (some item, s) => some <| .inl (some item, s)
      | (none, s)      => some <| .inr s

inductive Finds : Scanner → Option Item → Scanner → Prop
  | done (h : round? bytes s = some (.inl (item?, s'))) : Finds s item? s'
  | more (h : round? bytes s = some (.inr s₁)) (hf : Finds s₁ item? s') : Finds s item? s'

end Walking

def cursor (bytes : List UInt8) (s : Scanner) : Cursor where
  rest  := Segment.ofBytes <| bytes.drop s.position
  line  := s.line
  ended := s.ended

def behind (text : List Char) (line : Nat) (ended : Bool) : Scanner :=
  ⟨(encode text).length, line, ended⟩

variable {bytes : List UInt8} {b : UInt8}

theorem peek?_behind (before after : List Char) (line : Nat) (ended : Bool) :
    (behind before line ended).peek? (encode (before ++ after)) = (encode after)[0]? := by
  rw [peek?, behind, Utf8.encode_append, List.getElem?_append_right (Nat.le_refl _), Nat.sub_self]

theorem peekNext?_behind (before after : List Char) (line : Nat) (ended : Bool) :
    (behind before line ended).peekNext? (encode (before ++ after)) = (encode after)[1]? := by
  rw [peekNext?, behind, Utf8.encode_append, List.getElem?_append_right (Nat.le_add_right ..),
    Nat.add_sub_cancel_left]

theorem pass_eq (b : UInt8) (s : Scanner) :
    s.pass b = ⟨s.position + 1, s.line + [b].count newline, s.ended⟩ := by
  rw [pass, List.count_singleton]
  split <;> rfl

theorem skipUntil_eq (stop : UInt8 → Bool) (s : Scanner) : skipUntil bytes stop s =
    let run := (bytes.drop s.position).takeWhile (!stop ·)
    ⟨s.position + run.length, s.line + run.count newline, s.ended⟩ := by
  fun_induction skipUntil bytes stop s
  case case1 s h =>
    rw [List.drop_eq_nil_of_le <| List.getElem?_eq_none_iff.mp h]
    rfl
  case case2 s b h hs =>
    have ⟨hl, hb⟩ := List.getElem?_eq_some_iff.mp h
    rw [List.drop_eq_getElem_cons hl, hb, List.takeWhile_cons_of_neg (by simp [hs])]
    rfl
  case case3 s b h hs hi =>
    have ⟨hl, hb⟩ := List.getElem?_eq_some_iff.mp h
    have hr : (bytes.drop s.position).takeWhile (!stop ·) =
        b :: (bytes.drop (s.position + 1)).takeWhile (!stop ·) := by
      rw [List.drop_eq_getElem_cons hl, hb, List.takeWhile_cons_of_pos (by simp [hs])]
    rw [hi, hr, pass_eq]
    dsimp only
    rw [List.length_cons, List.count_cons, List.count_cons, List.count_nil, mk.injEq]
    exact ⟨by omega, by omega, rfl⟩

theorem slice?_behind (before part after : List Char) (line : Nat) (ended : Bool) :
    slice? (encode (before ++ part ++ after)) (encode before).length
      (behind (before ++ part) line ended).position = some (String.ofList part) := by
  have hs := Utf8.slice?_encode before part after
  rwa [← List.length_append, ← Utf8.encode_append] at hs

-- The loop looks at bytes, but where its test is one of characters that treats all but the ASCII
-- ones alike, it ends between two characters, and has passed the newlines of what it returns.
theorem advanceUntil?_eq {q : Char → Bool} {v : Bool} (hq : ∀ c : Char, 0x80 ≤ c.toNat → q c = v)
    {stop : UInt8 → Bool} (hs : (fun b => !stop b) = fun b => q (char b))
    (before part cs : List Char) (line : Nat) (ended : Bool) :
    advanceUntil? (encode (before ++ part ++ cs)) stop (encode before).length
        (behind (before ++ part) line ended) =
      some (String.ofList (part ++ cs.takeWhile q),
        behind (before ++ part ++ cs.takeWhile q) (line + (cs.takeWhile q).count '\n') ended) := by
  have hr : ((encode (before ++ part ++ cs)).drop (encode (before ++ part)).length).takeWhile
      (!stop ·) = encode (cs.takeWhile q) := by
    rw [Utf8.encode_append (before ++ part), List.drop_left, hs, Utf8.takeWhile_encode hq]
  have hb : skipUntil (encode (before ++ part ++ cs)) stop (behind (before ++ part) line ended) =
      behind (before ++ part ++ cs.takeWhile q) (line + (cs.takeWhile q).count '\n') ended := by
    rw [skipUntil_eq, behind]
    dsimp only
    rw [hr, count_newline_encode, behind, Utf8.encode_append (before ++ part), List.length_append]
  have hc := slice?_behind before (part ++ cs.takeWhile q) (cs.dropWhile q)
    (line + (cs.takeWhile q).count '\n') ended
  rw [List.append_assoc, List.append_assoc, List.takeWhile_append_dropWhile, ← List.append_assoc,
    ← List.append_assoc] at hc
  rw [advanceUntil?, hb, hc]
  rfl

def after (s : Scanner) (segment : Segment) : Scanner :=
  ⟨s.position + segment.bytes.length, s.line + segment.newlines, s.ended⟩

def answer (s : Scanner) (segment : Segment) : Option Item × Scanner :=
  (segment.item? (s.line + segment.newlines), s.after segment)

theorem answer_eq {segment : Segment} {part : List Char} (h : segment.bytes = encode part)
    (before : List Char) (line : Nat) (ended : Bool) :
    (behind before line ended).answer segment = (segment.item? (line + part.count '\n'),
      behind (before ++ part) (line + part.count '\n') ended) := by
  rw [answer, after, Segment.newlines, h, count_newline_encode, behind, behind, Utf8.encode_append,
    List.length_append]

theorem advance_behind (hb : b.toNat < 0x80) (before : List Char) (line : Nat) (ended : Bool) :
    (behind before line ended).advance = behind (before ++ [char b]) line ended := by
  rw [behind, behind, Utf8.encode_append, Utf8.encode_char_cons hb, List.length_append]
  rfl

end Scanner
end Lox
