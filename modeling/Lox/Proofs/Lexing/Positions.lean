import Lox.Proofs.Lexing.Items

namespace Lox

open Segment (newline quote)
open Utf8 (encode)

def lineAt (bytes : List UInt8) (position : Nat) : Nat :=
  1 + (bytes.take position).count newline

theorem lineAt_length_left (bytes bytes' : List UInt8) :
    lineAt (bytes ++ bytes') bytes.length = 1 + bytes.count newline := by
  rw [lineAt, List.take_left]

theorem lineAt_length (bytes : List UInt8) :
    lineAt bytes bytes.length = 1 + bytes.count newline := by
  rw [lineAt, List.take_length]

theorem lineAt_add_length (before part rest : List UInt8) :
    lineAt (before ++ (part ++ rest)) (before.length + part.length) =
      lineAt (before ++ (part ++ rest)) before.length + part.count newline := by
  have h := lineAt_length_left (before ++ part) rest
  rw [List.append_assoc, List.length_append, List.count_append] at h
  rw [h, lineAt_length_left, Nat.add_assoc]

namespace Piece

structure Ended where
  piece : Piece
  stop  : Nat

def ends (start : Nat) : List Piece → List Ended
  | []      => []
  | p :: ps => ⟨p, start + p.bytes.length⟩ :: ends (start + p.bytes.length) ps

namespace Decomposes

variable {bytes : List UInt8} {ps : List Piece} {start : Nat} {e : Ended}

theorem exists_of_mem_ends (h : Decomposes bytes ps) (he : e ∈ ends start ps) :
    ∃ before rest, bytes = before ++ e.piece.bytes ++ rest ∧ e.piece.Precedes rest ∧
      e.stop = start + before.length + e.piece.bytes.length := by
  induction h generalizing start
  case nil => contradiction
  case cons p rest' ps hp _ hi =>
    cases he
    case head => exact ⟨[], rest', rfl, hp, rfl⟩
    case tail he =>
      have ⟨before, rest, hb, hp, hs⟩ := hi he
      refine ⟨p.bytes ++ before, rest, ?_, hp, ?_⟩
      case refine_1 => rw [hb, List.append_assoc, List.append_assoc, List.append_assoc]
      case refine_2 => rw [hs, List.length_append, Nat.add_assoc start]

-- Lines are counted along the pieces, piece by piece, and this is the same as to count them from
-- the beginning of the source: each newline is in one piece only, be it a blank, part of a string
-- or part of what is not closed.
theorem items_eq (h : Decomposes bytes ps) (before : List UInt8) :
    items (lineAt (before ++ bytes) before.length) ps =
      (ends before.length ps).filterMap fun e => e.piece.item? (lineAt (before ++ bytes) e.stop) := by
  induction h generalizing before
  case nil => rfl
  case cons p rest ps _ _ hi =>
    have hi := hi (before ++ p.bytes)
    rw [List.append_assoc, List.length_append] at hi
    rw [items, ← lineAt_add_length, hi, ends, List.filterMap_cons]
    split
    case h_1 hn => rw [hn, Option.toList_none, List.nil_append]
    case h_2 hs => rw [hs, Option.toList_some, List.singleton_append]

theorem line_of_unterminated (h : Decomposes bytes ps) (he : e ∈ ends 0 ps) {error : ScanError}
    (hi : e.piece.item? (lineAt bytes e.stop) = some (.error error))
    (hk : error.kind = .unterminatedString) : error.line = lineAt bytes bytes.length := by
  have ⟨before, rest, hb, hp, hs⟩ := h.exists_of_mem_ends he
  generalize e.piece = p at hi hb hp hs
  cases hp <;> cases hi
  case stray => contradiction
  case unclosed => rw [hs, hb, List.append_nil, List.length_append, Nat.zero_add]

theorem exists_quote (h : Decomposes bytes ps) (he : e ∈ ends 0 ps) {text : List Char}
    {value : String} (hv : e.piece = .lexeme text (.literal (.string value))) :
    ∃ closing, e.stop = closing + 1 ∧ bytes[closing]? = some quote ∧
      lineAt bytes e.stop = lineAt bytes closing := by
  have ⟨before, rest, hb, hp, hs⟩ := h.exists_of_mem_ends he
  rw [hv] at hb hp hs
  cases hp
  case lexeme hp _ _ =>
    obtain ⟨inner, rfl⟩ := hp.exists_inner
    have ht : (lexeme ('"' :: (inner ++ ['"'])) (.literal (.string value))).bytes =
        quote :: encode inner ++ [quote] := by
      rw [Piece.bytes, Utf8.encode_cons, Utf8.encode_append]
      rfl
    rw [ht, ← List.append_assoc, List.append_assoc] at hb
    rw [ht, List.length_append, ← Nat.add_assoc, Nat.add_assoc 0, ← List.length_append,
      Nat.zero_add] at hs
    refine ⟨(before ++ quote :: encode inner).length, hs, ?_, ?_⟩
    case refine_1 => rw [hb, List.getElem?_append_right (Nat.le_refl _), Nat.sub_self]; rfl
    case refine_2 =>
      rw [hs, hb]
      exact lineAt_add_length _ [quote] rest

end Decomposes
end Piece

-- Whatever is found in a source has the line of the position at which its piece ends. So a string
-- has that of its closing quote, and the end and a string that is not closed have the last one.
theorem Cursor.items_lines (source : String) :
    let bytes := encode source.toList
    let items := (ofSource source).items
    ∃ pieces, (∀ ps, Piece.Decomposes bytes ps ↔ ps = pieces) ∧
      (∀ n, (ofSource source).answer n = items[n]?) ∧
      items = ((Piece.ends 0 pieces).filterMap fun e => e.piece.item? (lineAt bytes e.stop)) ++
        [.lexeme ⟨.eof, "", lineAt bytes bytes.length⟩] ∧
      lineAt bytes bytes.length = 1 + bytes.count newline ∧
      (∀ e ∈ Piece.ends 0 pieces, ∀ text value,
        e.piece = .lexeme text (.literal (.string value)) →
          ∃ closing, e.stop = closing + 1 ∧ bytes[closing]? = some quote ∧
            lineAt bytes e.stop = lineAt bytes closing) ∧
      (∀ e, .error e ∈ items → e.kind = .unterminatedString →
        e.line = lineAt bytes bytes.length) ∧
      items.Pairwise fun item item' => item.line ≤ item'.line := by
  intro bytes items
  have ⟨pieces, hd, hi⟩ := Piece.exists_decomposition bytes (Utf8.endsText_encode source.toList) 1
  have he : items = Piece.items (lineAt bytes 0) pieces ++
      [.lexeme ⟨.eof, "", lineAt bytes bytes.length⟩] := (lineAt_length bytes).symm ▸ hi
  have hp : Piece.items (lineAt bytes 0) pieces =
      (Piece.ends 0 pieces).filterMap fun e => e.piece.item? (lineAt bytes e.stop) := hd.items_eq []
  rw [hp] at he
  refine ⟨pieces, fun ps => ⟨fun h => h.unique hd, fun h => h ▸ hd⟩, (answer_eq · _), he,
    lineAt_length bytes, fun _ he _ _ => hd.exists_quote he, fun error hm hk => ?_,
    pairwise_items source⟩
  rw [he] at hm
  cases List.mem_append.mp hm
  case inr hm => cases List.mem_singleton.mp hm
  case inl hm =>
    have ⟨e, hm, hi⟩ := List.mem_filterMap.mp hm
    exact hd.line_of_unterminated hm hi hk

end Lox
