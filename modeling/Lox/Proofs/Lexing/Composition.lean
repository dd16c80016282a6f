import Lox.Proofs.Lexing.Items

namespace Lox

open Segment (symbol? symbolEqual?)
open Utf8 (encode)

def stops : List Char :=
  [' ', '\t', '\r', '\n', ')', ';']

theorem stop_cases {c : Char} (h : c ∈ stops) :
    isLetterOrDigit c = false ∧ c.isDigit = false ∧ c ≠ '.' ∧ c ≠ '=' ∧ c ≠ '/' := by
  simp only [stops, List.mem_cons, List.not_mem_nil, or_false] at h
  rcases h with rfl | rfl | rfl | rfl | rfl | rfl <;> decide

theorem stops_cons {c : Char} (h : c ∈ stops) (rest : List Char) :
    ∀ c' ∈ (c :: rest).head?, c' ∈ stops :=
  fun _ hc => Option.mem_some.mp hc ▸ h

namespace Spells

variable {text rest : List Char} {token : Token}

theorem isLongest (h : Spells text token) (hr : ∀ c ∈ rest.head?, c ∈ stops) :
    IsLongest text rest := by
  have hd : ∀ c ∈ rest.head?, c.isDigit = false := fun c hc => (stop_cases <| hr c hc).right.left
  cases h
  case symbol h =>
    rcases lookup_symbols_cases h with ⟨_, rfl, hs⟩ | ⟨_, rfl, hs⟩
    case inl => exact isLongest_symbol hs fun _ hh => absurd (hr _ hh) (by decide)
    case inr => exact isLongest_symbolEqual hs
  case string h => exact isLongest_string h
  case number h _ =>
    cases h
    case whole h =>
      refine isLongest_whole h hd fun c cs he => ?_
      have hp : '.' ∈ stops := hr _ (by rw [he]; rfl)
      contradiction
    case fraction hw hf _ => exact isLongest_fraction hw hf hd
  case reserved h _ | identifier h _ =>
    exact isLongest_word h fun c hc => (stop_cases <| hr c hc).left

theorem not_slashes (h : Spells text token) (hr : ∀ c ∈ rest.head?, c ∈ stops) :
    ¬['/', '/'] <+: text ++ rest := by
  obtain ⟨c, cs, rfl, _⟩ := h.exists_cons
  intro hp
  obtain ⟨rfl, hp'⟩ := List.cons_prefix_cons.mp hp
  rcases lookup_symbols_cases (h.symbol_cases nofun rfl rfl) with ⟨_, he, _⟩ | ⟨_, he, hc⟩
  case inl =>
    cases he
    obtain ⟨more, rfl⟩ := hp'
    exact absurd (hr _ rfl) (by decide)
  case inr =>
    cases he
    contradiction

end Spells

def Lexeme.IsSpelled (l : Lexeme) : Prop :=
  Spells l.content.toList l.token

theorem Scan.isSpelled_of_mem_lexemesBefore {source : String} {l : Lexeme}
    (h : l ∈ lexemesBefore source) : l.IsSpelled := by
  have ⟨text, hs, hc⟩ := spells_of_mem_lexemesBefore h
  rwa [Lexeme.IsSpelled, hc, String.toList_ofList]

-- The text falls apart into such lexemes, and into nothing else that shows. Texts are put together
-- from their end: a lexeme is put before a text that begins with something the lexeme cannot go on
-- with.
def Scans (text : List Char) (ls : List Lexeme) : Prop :=
  ∃ ps, Piece.Decomposes (encode text) ps ∧ ∀ line,
    ((Piece.items line ps).filterMap Item.lexeme?).map Lexeme.lineless = ls ∧
      (Piece.items line ps).filterMap Item.error? = []

namespace Scans

variable {c : Char} {text rest : List Char} {token : Token} {ls : List Lexeme}

theorem nil : Scans [] [] :=
  ⟨[], .nil, fun _ => ⟨rfl, rfl⟩⟩

theorem silent {p : Piece} (hr : Scans rest ls) (hp : p.Precedes (encode rest))
    (hb : p.bytes = encode text) (hi : ∀ line, p.item? line = none) : Scans (text ++ rest) ls := by
  have ⟨ps, hd, hs⟩ := hr
  refine ⟨p :: ps, ?_, fun line => ?_⟩
  case refine_1 =>
    rw [Utf8.encode_append, ← hb]
    exact .cons hp hd
  case refine_2 =>
    rw [Piece.items, hi]
    exact hs _

theorem blank (hr : Scans rest ls) (hb : c ∈ [' ', '\t', '\r', '\n']) : Scans (c :: rest) ls := by
  have he : [c.toUInt8] = encode [c] := by
    simp only [List.mem_cons, List.not_mem_nil, or_false] at hb
    rcases hb with rfl | rfl | rfl | rfl <;> rfl
  exact hr.silent (.blank <| List.mem_map_of_mem hb) he fun _ => rfl

theorem comment (hr : Scans ('\n' :: rest) ls) (hn : '\n' ∉ text) :
    Scans ('/' :: '/' :: (text ++ '\n' :: rest)) ls := by
  have he : (Piece.comment (encode text)).bytes = encode ('/' :: '/' :: text) := rfl
  refine hr.silent (.comment (fun hm => hn ?_) fun b hb => ?_) he fun _ => rfl
  case refine_1 =>
    have hc := List.count_pos_iff.mpr hm
    rw [count_newline_encode] at hc
    exact List.count_pos_iff.mp hc
  case refine_2 => exact (Option.mem_some.mp hb).symm

theorem longest (hr : Scans rest ls) (hs : Spells text token)
    (hc : ¬['/', '/'] <+: text ++ rest) (hl : IsLongest text rest) :
    Scans (text ++ rest) (⟨token, String.ofList text, 0⟩ :: ls) := by
  have ⟨ps, hd, hi⟩ := hr
  refine ⟨.lexeme text token :: ps, ?_, fun line => ?_⟩
  case refine_1 =>
    rw [Utf8.encode_append]
    exact .cons (Piece.precedes_lexeme hs hc hl) hd
  case refine_2 =>
    have ⟨hl, he⟩ := hi (line + (Piece.lexeme text token).bytes.count Segment.newline)
    rw [Piece.items, Piece.item?, Option.toList_some, List.singleton_append]
    exact ⟨congrArg (_ :: ·) hl, he⟩

theorem lexeme {l : Lexeme} (hr : Scans rest ls) (hs : l.IsSpelled)
    (hc : ∀ c ∈ rest.head?, c ∈ stops) : Scans (l.content.toList ++ rest) (l.lineless :: ls) := by
  have h := hr.longest hs (hs.not_slashes hc) (hs.isLongest hc)
  rwa [String.ofList_toList] at h

theorem symbol (hr : Scans rest ls) (hs : symbol? c = some token) (he : symbolEqual? c = none)
    (hc : c ≠ '/') : Scans (c :: rest) (⟨token, String.ofList [c], 0⟩ :: ls) :=
  hr.longest (.symbol (symbol?_cases hs).left) (Lox.not_slashes hc)
    (isLongest_symbol hs fun hi => absurd hi <| by rw [he]; nofun)

theorem ofSource {source : String} (h : Scans source.toList ls) :
    (Scan.ofSource source).errors = [] ∧
      (Scan.ofSource source).lexemes.map Lexeme.lineless = ls ++ [⟨.eof, "", 0⟩] := by
  have ⟨ps, hd, hi⟩ := h
  have ⟨ps', hd', he⟩ := Piece.exists_decomposition _ (Utf8.endsText_encode source.toList) 1
  have he := (Cursor.items_ofSource source).symm.trans he
  have ⟨he, _⟩ := List.append_inj' he rfl
  have ⟨hl, hn⟩ := hi 1
  rw [hd.unique hd', ← he] at hl hn
  rw [Scan.errors_ofSource, Scan.lexemes_ofSource, List.map_append, Scan.lexemesBefore, hl]
  exact ⟨hn, rfl⟩

end Scans
end Lox
