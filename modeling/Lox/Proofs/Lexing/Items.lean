import Lox.Proofs.Lexing.MaximalMunch
import Lox.Proofs.Syntax.Reading

namespace Lox

open Utf8 (encode)

def Lexeme.lineless (l : Lexeme) : Lexeme :=
  { l with line := 0 }

def Item.line : Item → Nat
  | lexeme l => l.line
  | error e  => e.line

namespace Segment

def items (line : Nat) : List Segment → List Item
  | []      => []
  | s :: ss => (s.item? (line + s.newlines)).toList ++ items (line + s.newlines) ss

variable {s : Segment} {ss : List Segment} {item : Item} {line : Nat}

theorem line_of_item? (h : s.item? line = some item) : item.line = line := by
  simp only [item?] at h
  cases hk : s.kind <;> simp only [hk] at h
  case blank | comment => contradiction
  all_goals
    cases h
    rfl

theorem le_line_of_mem_items (h : item ∈ items line ss) : line ≤ item.line := by
  induction ss generalizing line
  case nil => contradiction
  case cons s ss hi =>
    cases List.mem_append.mp h
    case inl hm => exact line_of_item? (Option.mem_toList.mp hm) ▸ Nat.le_add_right ..
    case inr hm => exact Nat.le_trans (Nat.le_add_right ..) (hi hm)

theorem line_le_of_mem_items (h : item ∈ items line ss) :
    item.line ≤ line + (ss.flatMap Segment.bytes).count newline := by
  induction ss generalizing line
  case nil => contradiction
  case cons s ss hi =>
    simp only [List.flatMap_cons, List.count_append, ← Nat.add_assoc]
    cases List.mem_append.mp h
    case inl hm => exact line_of_item? (Option.mem_toList.mp hm) ▸ Nat.le_add_right ..
    case inr hm => exact hi hm

theorem pairwise_items (line : Nat) (ss : List Segment) :
    (items line ss).Pairwise fun item item' => item.line ≤ item'.line := by
  induction ss generalizing line
  case nil => exact .nil
  case cons s ss hi =>
    refine List.pairwise_append.mpr ⟨?_, hi _, fun item hm item' hm' => ?_⟩
    case refine_1 => cases s.item? (line + s.newlines) <;> simp
    case refine_2 =>
      exact line_of_item? (Option.mem_toList.mp hm) ▸ le_line_of_mem_items hm'

end Segment

namespace Cursor

theorem items_go_append (line : Nat) (ss ss' : List Segment) :
    items.go line (ss ++ ss') = Segment.items line ss ++
      items.go (line + (ss.flatMap Segment.bytes).count Segment.newline) ss' := by
  induction ss generalizing line
  case nil => rfl
  case cons s ss hi =>
    simp [items.go, Segment.items, hi, Segment.newlines, List.flatMap_cons, Nat.add_assoc]

end Cursor

theorem count_newline_encode (text : List Char) :
    (encode text).count Segment.newline = text.count '\n' := by
  induction text
  case nil => rfl
  case cons c cs hi =>
    simp only [Utf8.encode_cons, List.count_append, List.count_cons, hi, Nat.add_comm]
    by_cases hc : c = '\n'
    case pos =>
      subst hc
      rfl
    case neg =>
      have hn : Segment.newline ∉ String.utf8EncodeChar c := fun hm =>
        hc (Utf8.char_of_mem_utf8EncodeChar (by decide) hm).right.symm
      simp [List.count_eq_zero_of_not_mem hn, hc]

def lineBreaks (source : String) : Nat :=
  source.toList.count '\n'

namespace Cursor

-- The items of a source, without the end of it. They are all that another source can have behind
-- it, and the only items that are made of bytes of the source.
def itemsBefore (source : String) : List Item :=
  Segment.items 1 <| Segment.ofBytes <| encode source.toList

theorem items_ofSource (source : String) :
    (ofSource source).items = itemsBefore source ++ [.lexeme ⟨.eof, "", 1 + lineBreaks source⟩] := by
  have h := items_go_append 1 (Segment.ofBytes <| encode source.toList) []
  simp only [List.append_nil, Segment.flatMap_bytes_ofBytes, count_newline_encode] at h
  exact h

theorem line_of_mem_itemsBefore {source : String} {item : Item} (h : item ∈ itemsBefore source) :
    1 ≤ item.line ∧ item.line ≤ 1 + lineBreaks source := by
  have hl := Segment.line_le_of_mem_items h
  simp only [Segment.flatMap_bytes_ofBytes, count_newline_encode] at hl
  exact ⟨Segment.le_line_of_mem_items h, hl⟩

theorem pairwise_items (source : String) :
    (ofSource source).items.Pairwise fun item item' => item.line ≤ item'.line := by
  rw [items_ofSource]
  refine List.pairwise_append.mpr ⟨Segment.pairwise_items .., List.pairwise_singleton .., ?_⟩
  intro item hm _ he
  exact List.mem_singleton.mp he ▸ (line_of_mem_itemsBefore hm).right

end Cursor

namespace Item

variable {item : Item}

theorem line_of_lexeme? {l : Lexeme} (h : item.lexeme? = some l) : l.line = item.line := by
  cases item <;> cases h
  rfl

theorem line_of_error? {e : ScanError} (h : item.error? = some e) : e.line = item.line := by
  cases item <;> cases h
  rfl

end Item

theorem Piece.spells_of_mem_items {bytes : List UInt8} {ps : List Piece} {line : Nat} {l : Lexeme}
    (h : Decomposes bytes ps) (hl : .lexeme l ∈ items line ps) :
    ∃ text, Spells text l.token ∧ l.content = String.ofList text := by
  induction h generalizing line
  case nil => contradiction
  case cons p rest ps hp _ hi =>
    cases List.mem_append.mp hl
    case inr hm => exact hi hm
    case inl hm =>
      cases hp
      case lexeme text _ hs _ _ =>
        cases List.mem_singleton.mp hm
        exact ⟨text, hs, rfl⟩
      all_goals simp [item?] at hm

namespace Scan

variable {source : String}

theorem lexemes_eq (source : String) :
    (ofSource source).lexemes = (Cursor.ofSource source).items.filterMap Item.lexeme? :=
  rfl

theorem errors_eq (source : String) :
    (ofSource source).errors = (Cursor.ofSource source).items.filterMap Item.error? :=
  rfl

def lexemesBefore (source : String) : List Lexeme :=
  (Cursor.itemsBefore source).filterMap Item.lexeme?

theorem lexemes_ofSource (source : String) :
    (ofSource source).lexemes = lexemesBefore source ++ [⟨.eof, "", 1 + lineBreaks source⟩] := by
  simp only [lexemes_eq, Cursor.items_ofSource, List.filterMap_append]
  rfl

theorem errors_ofSource (source : String) :
    (ofSource source).errors = (Cursor.itemsBefore source).filterMap Item.error? := by
  simp only [errors_eq, Cursor.items_ofSource, List.filterMap_append]
  exact List.append_nil _

theorem pairwise_errors (source : String) :
    (ofSource source).errors.Pairwise fun e e' => e.line ≤ e'.line := by
  simp only [errors_ofSource]
  exact List.pairwise_filterMap.mpr <| (Segment.pairwise_items ..).imp fun h _ he _ he' =>
    Item.line_of_error? he ▸ Item.line_of_error? he' ▸ h

theorem line_of_mem_errors {e : ScanError} (h : e ∈ (ofSource source).errors) :
    1 ≤ e.line ∧ e.line ≤ 1 + lineBreaks source := by
  simp only [errors_ofSource] at h
  have ⟨item, hm, he⟩ := List.mem_filterMap.mp h
  exact Item.line_of_error? he ▸ Cursor.line_of_mem_itemsBefore hm

theorem line_of_mem_lexemes {l : Lexeme} (h : l ∈ (ofSource source).lexemes) :
    1 ≤ l.line ∧ l.line ≤ 1 + lineBreaks source := by
  simp only [lexemes_ofSource] at h
  cases List.mem_append.mp h
  case inl h =>
    have ⟨item, hm, hl⟩ := List.mem_filterMap.mp h
    exact Item.line_of_lexeme? hl ▸ Cursor.line_of_mem_itemsBefore hm
  case inr h => exact List.mem_singleton.mp h ▸ ⟨Nat.le_add_right .., Nat.le_refl _⟩

theorem spells_of_mem_lexemesBefore {l : Lexeme} (h : l ∈ lexemesBefore source) :
    ∃ text, Spells text l.token ∧ l.content = String.ofList text := by
  have ⟨ps, hd, hi⟩ := Piece.exists_decomposition _ (Utf8.endsText_encode source.toList) 1
  have hi := (Cursor.items_ofSource source).symm.trans hi
  have ⟨hi, _⟩ := List.append_inj' hi rfl
  have ⟨item, hm, hl⟩ := List.mem_filterMap.mp h
  cases item
  case error => contradiction
  case lexeme l' =>
    cases hl
    exact Piece.spells_of_mem_items hd <| hi ▸ hm

theorem content_of_identifier {l : Lexeme} (h : l ∈ (ofSource source).lexemes) {name : String}
    (ht : l.token = .identifier name) : l.content = name := by
  simp only [lexemes_ofSource] at h
  cases List.mem_append.mp h
  case inl h =>
    have ⟨text, hs, hc⟩ := spells_of_mem_lexemesBefore h
    exact hc.trans (ht ▸ hs).identifier_cases.right.symm
  case inr h => simp [List.mem_singleton.mp h] at ht

theorem not_isEnd_of_mem_lexemesBefore {l : Lexeme} (h : l ∈ lexemesBefore source) : ¬l.IsEnd := by
  have ⟨_, hs, _⟩ := spells_of_mem_lexemesBefore h
  exact hs.token_ne_eof

theorem eq_of_isEnd {l : Lexeme} (h : l ∈ (ofSource source).lexemes) (he : l.IsEnd) :
    l = ⟨.eof, "", 1 + lineBreaks source⟩ := by
  simp only [lexemes_ofSource] at h
  exact (List.mem_append.mp h).elim (fun h => absurd he <| not_isEnd_of_mem_lexemesBefore h)
    List.mem_singleton.mp

def visible (scan : Scan) : List Lexeme :=
  scan.lexemes.filter (·.token ≠ .eof)

theorem visible_ofSource (source : String) : (ofSource source).visible = lexemesBefore source := by
  have hk : ∀ l ∈ lexemesBefore source, decide (l.token ≠ .eof) := fun l hm =>
    decide_eq_true <| not_isEnd_of_mem_lexemesBefore hm
  simp only [visible, lexemes_ofSource, List.filter_append, List.filter_eq_self.mpr hk]
  exact List.append_nil _

end Scan
end Lox
