import Lox.Proofs.Lexing.Bytes
import Lox.Proofs.Lexing.Spelling

namespace Lox

open Segment (char newline quote)
open Utf8 (encode)

inductive Piece
  | blank (b : UInt8)
  | comment (text : List UInt8)
  | lexeme (text : List Char) (token : Token)
  | stray (b : UInt8)
  | unclosed (text : List UInt8)

namespace Piece

def slash : UInt8 := '/'.toUInt8

def blanks : List UInt8 :=
  [' ', '\t', '\r', '\n'].map Char.toUInt8

def bytes : Piece → List UInt8
  | blank b       => [b]
  | comment text  => slash :: slash :: text
  | lexeme text _ => encode text
  | stray b       => [b]
  | unclosed text => quote :: text

-- What is the next piece where these bytes remain behind it, said without a reader: a lexeme is the
-- longest text of a token, none begins with two slashes, and a stray byte is one that nothing else
-- can begin with.
inductive Precedes : Piece → List UInt8 → Prop
  | blank (hb : b ∈ blanks) : Precedes (.blank b) rest
  | comment (hn : newline ∉ text) (hr : ∀ b ∈ rest.head?, b = newline) :
    Precedes (.comment text) rest
  | lexeme (hs : Spells text token) (hc : ¬[slash, slash] <+: encode text ++ rest)
    (hl : ∀ text' token', Spells text' token' → encode text' <+: encode text ++ rest →
      (encode text').length ≤ (encode text).length) :
    Precedes (.lexeme text token) rest
  | stray (hb : b ∉ blanks) (hs : ∀ text token, Spells text token → (encode text).head? ≠ some b) :
    Precedes (.stray b) rest
  | unclosed (hq : quote ∉ text) : Precedes (.unclosed text) []

inductive Decomposes : List UInt8 → List Piece → Prop
  | nil : Decomposes [] []
  | cons (hp : Precedes p rest) (hr : Decomposes rest ps) : Decomposes (p.bytes ++ rest) (p :: ps)

theorem char_of_mem_blanks {b : UInt8} (h : b ∈ blanks) : char b ∈ [' ', '\t', '\r', '\n'] :=
  List.mem_map_of_mem (f := char) h

theorem encode_of_spells {text : List Char} {token : Token} (h : Spells text token) :
    ∃ b cs, text = char b :: cs ∧ encode text = b :: encode cs := by
  obtain ⟨c, cs, rfl, _⟩ := h.exists_cons
  have ⟨b, hb, he⟩ := Utf8.utf8EncodeChar_of_lt h.head_lt
  exact ⟨b, cs, by rw [hb], by rw [Utf8.encode_cons, he]; rfl⟩

theorem takeWhile_of_comment {text rest : List UInt8} (hn : newline ∉ text)
    (hr : ∀ b ∈ rest.head?, b = newline) : (text ++ rest).takeWhile (· != newline) = text :=
  takeWhile_append_of_stop (fun _ hb => bne_iff_ne.mpr fun he => hn <| he ▸ hb)
    fun b hb => by rw [hr b hb, bne_self_eq_false]

namespace Precedes

variable {p p' : Piece} {rest rest' text : List UInt8} {b : UInt8}

theorem bytes_ne_nil (h : p.Precedes rest) : p.bytes ≠ [] := by
  cases h
  case lexeme hs _ _ =>
    have ⟨b, cs, _, he⟩ := encode_of_spells hs
    rw [Piece.bytes, he]
    nofun
  all_goals nofun

theorem eq_blank (h : p.Precedes rest) (hb : b ∈ blanks) (he : p.bytes ++ rest = b :: rest') :
    p = .blank b := by
  cases h
  case blank =>
    cases List.head_eq_of_cons_eq he
    rfl
  case comment | unclosed =>
    cases List.head_eq_of_cons_eq he
    contradiction
  case lexeme hs _ _ =>
    have ⟨_, _, ht, hh⟩ := encode_of_spells hs
    rw [Piece.bytes, hh] at he
    cases List.head_eq_of_cons_eq he
    exact absurd (char_of_mem_blanks hb) (ht ▸ hs).head_not_blank
  case stray hb' _ =>
    cases List.head_eq_of_cons_eq he
    exact absurd hb hb'

theorem eq_comment (h : p.Precedes rest) (h' : (Piece.comment text).Precedes rest')
    (he : p.bytes ++ rest = slash :: slash :: (text ++ rest')) : p = .comment text := by
  cases h
  case comment text hn hr =>
    cases h'
    case comment hn' hr' =>
      have ht := congrArg (List.takeWhile (· != newline)) <|
        List.tail_eq_of_cons_eq <| List.tail_eq_of_cons_eq he
      rw [takeWhile_of_comment hn' hr'] at ht
      rw [← ht]
      exact congrArg _ (takeWhile_of_comment hn hr).symm
  case blank =>
    cases List.head_eq_of_cons_eq he
    contradiction
  case unclosed => cases List.head_eq_of_cons_eq he
  case lexeme hc _ => exact absurd ⟨_, he.symm⟩ hc
  case stray hs =>
    cases List.head_eq_of_cons_eq he
    exact absurd rfl <| hs ['/'] .slash (.symbol rfl)

theorem eq_unclosed (h : p.Precedes rest) (hq : quote ∉ text)
    (he : p.bytes ++ rest = quote :: (text ++ [])) : p = .unclosed text := by
  cases h
  case blank =>
    cases List.head_eq_of_cons_eq he
    contradiction
  case comment => cases List.head_eq_of_cons_eq he
  case lexeme hs _ _ =>
    have ⟨b, cs, ht, hh⟩ := encode_of_spells hs
    rw [Piece.bytes, hh] at he
    cases List.head_eq_of_cons_eq he
    have ⟨inner, _, hi, _⟩ := (ht ▸ hs).string_cases
    have ht : encode cs ++ rest = text ++ [] := List.tail_eq_of_cons_eq he
    rw [hi, Utf8.encode_append, List.append_assoc, List.append_nil] at ht
    exact absurd (ht ▸ List.mem_append_right _ List.mem_cons_self) hq
  case stray hs =>
    cases List.head_eq_of_cons_eq he
    exact absurd rfl <| hs ['"', '"'] _ (.string List.not_mem_nil)
  case unclosed => rw [List.append_cancel_right <| List.tail_eq_of_cons_eq he]

theorem eq_lexeme {cs : List Char} {token : Token} (h : p.Precedes rest)
    (h' : (Piece.lexeme cs token).Precedes rest') (he : p.bytes ++ rest = encode cs ++ rest') :
    p = .lexeme cs token := by
  cases h
  case blank hb => exact (h'.eq_blank hb he.symm).symm
  case comment hn hr => exact (h'.eq_comment (.comment hn hr) he.symm).symm
  case unclosed hq => exact (h'.eq_unclosed hq he.symm).symm
  all_goals cases h'
  case lexeme.lexeme text' _ hs _ hl hs' _ hl' =>
    -- Each is the longest where the other begins too.
    have hp : encode text' <+: encode cs ++ rest' := ⟨rest, he⟩
    have hp' : encode cs <+: encode text' ++ rest := ⟨rest', he.symm⟩
    have hl := Nat.le_antisymm (hl' _ _ hs hp) (hl _ _ hs' hp')
    have ht := Utf8.encode_injective <| (List.append_inj he hl).left
    subst ht
    rw [hs.token_unique hs']
  case stray.lexeme hs hs' _ _ =>
    have ⟨b, cs', _, hh⟩ := encode_of_spells hs'
    rw [hh] at he
    cases List.head_eq_of_cons_eq he
    exact absurd (by rw [hh]; rfl) <| hs cs token hs'

theorem unique (h : p.Precedes rest) (h' : p'.Precedes rest')
    (he : p.bytes ++ rest = p'.bytes ++ rest') : p = p' := by
  cases h'
  case blank hb => exact h.eq_blank hb he
  case comment hn hr => exact h.eq_comment (.comment hn hr) he
  case lexeme hs hc hl => exact h.eq_lexeme (.lexeme hs hc hl) he
  case unclosed hq => exact h.eq_unclosed hq he
  case stray b hb hs =>
    have h' : (Piece.stray b).Precedes rest' := .stray hb hs
    cases h
    case blank hb => exact (h'.eq_blank hb he.symm).symm
    case comment hn hr => exact (h'.eq_comment (.comment hn hr) he.symm).symm
    case lexeme hs hc hl => exact (h'.eq_lexeme (.lexeme hs hc hl) he.symm).symm
    case unclosed hq => exact (h'.eq_unclosed hq he.symm).symm
    case stray =>
      cases List.head_eq_of_cons_eq he
      rfl

end Precedes

theorem Decomposes.unique {bytes : List UInt8} {ps ps' : List Piece} (h : Decomposes bytes ps)
    (h' : Decomposes bytes ps') : ps = ps' := by
  induction h generalizing ps'
  case nil =>
    generalize hb : ([] : List UInt8) = bytes at h'
    cases h'
    case nil => rfl
    case cons hp _ => exact absurd (List.append_eq_nil_iff.mp hb.symm).left hp.bytes_ne_nil
  case cons p rest ps hp _ hi =>
    generalize hb : p.bytes ++ rest = bytes at h'
    cases h'
    case nil => exact absurd (List.append_eq_nil_iff.mp hb).left hp.bytes_ne_nil
    case cons hp' hr' =>
      have he := hp.unique hp' hb
      subst he
      have hr := List.append_cancel_left hb
      subst hr
      rw [hi hr']

end Piece
end Lox
