import Lox.Lexeme.Segment

namespace Lox

inductive ScanErrorKind
  | unexpectedCharacter
  | unterminatedString
  deriving DecidableEq

structure ScanError where
  kind : ScanErrorKind
  line : Nat
  deriving DecidableEq

inductive Item
  | lexeme (l : Lexeme)
  | error (e : ScanError)
  deriving DecidableEq

namespace Segment

-- The text of a segment. Every segment but a stray byte begins and ends between two characters, and
-- what stands between quotes is a text, too. Likewise each number segment is a numeral, so that
-- none of the three defaults below is ever the value of a lexeme.
def content (s : Segment) : String :=
  (Utf8.text? s.bytes).getD ""

def inner (s : Segment) : String :=
  (Utf8.text? (s.bytes.drop 1).dropLast).getD ""

def numeral (s : Segment) : Float :=
  (Numeral.read? (s.bytes.map char)).getD 0

def item? (s : Segment) (line : Nat) : Option Item :=
  match s.kind with
  | .blank        => none
  | .comment      => none
  | .symbol token => some <| .lexeme ⟨token, s.content, line⟩
  | .quoted       => some <| .lexeme ⟨.literal (.string s.inner), s.content, line⟩
  | .number       => some <| .lexeme ⟨.literal (.number s.numeral), s.content, line⟩
  | .word         => some <| .lexeme ⟨.ofWord s.content, s.content, line⟩
  | .unclosed     => some <| .error ⟨.unterminatedString, line⟩
  | .stray        => some <| .error ⟨.unexpectedCharacter, line⟩

end Segment

structure Cursor where
  rest  : List Segment
  line  : Nat := 1
  ended : Bool := false

namespace Cursor

def ofSource (source : String) : Cursor where
  rest := Segment.ofBytes <| Utf8.encode source.toList

-- The next item: a lexeme for each segment that is one, an error for each byte that can begin
-- nothing and for a string that is never closed. The end is an item once, and there is none behind
-- it.
def next (c : Cursor) : Option Item × Cursor :=
  if c.ended then (none, c) else go c.line c.rest
where
  go (line : Nat) : List Segment → Option Item × Cursor
    | []      => (some <| .lexeme ⟨.eof, "", line⟩, { rest := [], line, ended := true })
    | s :: ss =>
      match s.item? (line + s.newlines) with
      | some item => (some item, { rest := ss, line := line + s.newlines })
      | none      => go (line + s.newlines) ss

def items (c : Cursor) : List Item :=
  if c.ended then [] else go c.line c.rest
where
  go (line : Nat) : List Segment → List Item
    | []      => [.lexeme ⟨.eof, "", line⟩]
    | s :: ss => (s.item? (line + s.newlines)).toList ++ go (line + s.newlines) ss

theorem items_go_eq_next_go (line : Nat) (ss : List Segment) :
    items.go line ss = (next.go line ss).1.toList ++ (next.go line ss).2.items := by
  induction ss generalizing line <;> simp only [items.go, next.go]
  case nil => simp [items]
  case cons s ss hi =>
    cases s.item? (line + s.newlines)
    case none => simpa using hi (line + s.newlines)
    case some => simp [items]

theorem items_eq_next (c : Cursor) : c.items = c.next.1.toList ++ c.next.2.items := by
  by_cases h : c.ended
  case pos => simp [items, next, h]
  case neg => simpa [items, next, h] using items_go_eq_next_go c.line c.rest

theorem items_eq_nil_iff (c : Cursor) : c.items = [] ↔ c.next = (none, c) := by
  by_cases h : c.ended
  case pos => simp [items, next, h]
  case neg =>
    suffices hn : ∀ line ss, items.go line ss ≠ [] ∧ (next.go line ss).1 ≠ none by
      simp only [items, next, h, Bool.false_eq_true, if_false]
      exact ⟨fun hi => absurd hi (hn ..).1, fun hi => absurd (congrArg Prod.fst hi) (hn ..).2⟩
    intro line ss
    induction ss generalizing line <;> simp only [items.go, next.go]
    case nil => simp
    case cons s ss hi =>
      cases s.item? (line + s.newlines)
      case none => simpa using hi (line + s.newlines)
      case some => simp

end Cursor

structure Scan where
  lexemes : List Lexeme
  errors  : List ScanError
  deriving DecidableEq

namespace Scan

def ofItems (items : List Item) : Scan where
  lexemes := items.filterMap fun
    | .lexeme l => some l
    | .error _  => none
  errors := items.filterMap fun
    | .lexeme _ => none
    | .error e  => some e

def ofSource (source : String) : Scan :=
  ofItems (Cursor.ofSource source).items

end Scan
end Lox
