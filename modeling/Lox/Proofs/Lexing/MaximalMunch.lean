import Lox.Proofs.Lexing.Longest
import Lox.Proofs.Lexing.Piece

namespace Lox

open Segment (char newline quote isDigit isWordPart symbol? symbolEqual?)
open Utf8 (encode EndsText)

def Piece.item? : Piece → Nat → Option Item
  | lexeme text token, line => some <| .lexeme ⟨token, String.ofList text, line⟩
  | stray _, line           => some <| .error ⟨.unexpectedCharacter, line⟩
  | unclosed _, line        => some <| .error ⟨.unterminatedString, line⟩
  | _, _                    => none

theorem not_slashes {c : Char} {cs : List Char} (h : c ≠ '/') : ¬['/', '/'] <+: c :: cs :=
  fun hp => h (List.cons_prefix_cons.mp hp).left.symm

theorem Piece.precedes_lexeme {text rest : List Char} {token : Token} (hs : Spells text token)
    (hc : ¬['/', '/'] <+: text ++ rest) (hl : IsLongest text rest) :
    (Piece.lexeme text token).Precedes (encode rest) := by
  refine .lexeme hs (fun hp => hc ?_) fun text' token' hs' hp => ?_
  case refine_1 =>
    rw [← Utf8.encode_append] at hp
    exact Utf8.encode_prefix_iff.mp hp
  case refine_2 =>
    rw [← Utf8.encode_append] at hp
    have hp := Utf8.encode_prefix_iff.mp hp
    have hp := List.prefix_of_prefix_length_le hp (List.prefix_append ..) <| hl _ _ hs' hp
    exact (Utf8.encode_prefix_iff.mpr hp).length_le

namespace Segment

-- A segment that is a piece, with the given bytes behind it. These are needed to say that it is the
-- longest there, and that it is not the beginning of a comment.
structure Is (s : Segment) (rest : List UInt8) (p : Piece) : Prop where
  bytes    : s.bytes = p.bytes
  precedes : p.Precedes rest
  item?    : ∀ line, s.item? line = p.item? line

variable {b : UInt8} {bytes : List UInt8} {cs : List Char}

theorem content_of_encode {s : Segment} {text : List Char} (h : s.bytes = encode text) :
    s.content = String.ofList text := by
  rw [content, h, Utf8.text?_encode, Option.getD_some]

theorem Is.lexeme {s : Segment} {text rest : List Char} {token : Token} (hb : s.bytes = encode text)
    (hs : Spells text token) (hc : ¬['/', '/'] <+: text ++ rest) (hl : IsLongest text rest)
    (hi : ∀ line, s.item? line = some (.lexeme ⟨token, s.content, line⟩)) :
    s.Is (encode rest) (.lexeme text token) where
  bytes    := hb
  precedes := Piece.precedes_lexeme hs hc hl
  item?    := fun line => by rw [hi, content_of_encode hb]; rfl

theorem char_eq_iff {c : Char} (h : char c.toUInt8 = c) : char b = c ↔ b = c.toUInt8 :=
  ⟨fun hc => Utf8.char_injective <| hc.trans h.symm, fun hb => hb ▸ h⟩

theorem isBlank_iff : isBlank b ↔ b ∈ Piece.blanks := by
  simp only [isBlank, Bool.or_eq_true, beq_iff_eq, Piece.blanks, List.map_cons, List.map_nil,
    List.mem_cons, List.not_mem_nil, or_false, or_assoc, char_eq_iff (c := ' ') rfl,
    char_eq_iff (c := '\t') rfl, char_eq_iff (c := '\r') rfl, char_eq_iff (c := '\n') rfl]

theorem is_blank (h : isBlank b) : Is ⟨.blank, [b]⟩ bytes (.blank b) where
  bytes    := rfl
  precedes := .blank <| isBlank_iff.mp h
  item?    := fun _ => rfl

theorem exists_cutComment (h : startsComment b bytes) :
    ∃ p, (cutComment b bytes).1.Is (cutComment b bytes).2 p := by
  cases bytes
  case nil => contradiction
  case cons b' bytes =>
    simp only [startsComment, Bool.and_eq_true, beq_iff_eq] at h
    obtain rfl : b = Piece.slash := Utf8.char_injective h.left
    obtain rfl : b' = Piece.slash := Utf8.char_injective h.right
    have hr := stop_dropWhile (· != newline) bytes
    exact ⟨.comment (bytes.takeWhile (· != newline)), rfl,
      .comment (not_mem_takeWhile_bne newline bytes) fun b hb => bne_eq_false_iff_eq.mp (hr b hb),
      fun _ => rfl⟩

theorem bne_char (b b' : UInt8) : (b != b') = (char b != char b') := by
  by_cases h : b = b'
  case pos => rw [h, bne_self_eq_false, bne_self_eq_false]
  case neg => rw [bne_iff_ne.mpr h, bne_iff_ne.mpr fun hc => h <| Utf8.char_injective hc]

theorem bne_of_lt {d : Char} (hd : d.toNat < 0x80) (c : Char) (h : 0x80 ≤ c.toNat) :
    (c != d) = true :=
  bne_iff_ne.mpr fun he => Nat.not_lt.mpr h <| he ▸ hd

theorem beq_of_lt {d : Char} (hd : d.toNat < 0x80) (c : Char) (h : 0x80 ≤ c.toNat) :
    (c == d) = false :=
  beq_eq_false_iff_ne.mpr fun he => Nat.not_lt.mpr h <| he ▸ hd

theorem getElem?_zero_encode_iff {d : Char} (hd : d.toNat < 0x80) (hb : char b = d) :
    (encode cs)[0]? = some b ↔ ∃ more, cs = d :: more := by
  cases cs
  case nil => exact ⟨nofun, nofun⟩
  case cons c cs =>
    have ⟨_, _, he, hc⟩ := Utf8.exists_encode_cons (beq_of_lt hd) c cs
    rw [he, List.getElem?_cons_zero, Option.some.injEq]
    constructor
    case mp =>
      intro hb'
      rw [hb', hb, beq_self_eq_true] at hc
      exact ⟨cs, by rw [beq_iff_eq.mp hc.symm]⟩
    case mpr =>
      intro ⟨_, hm⟩
      rw [List.head_eq_of_cons_eq hm, beq_self_eq_true] at hc
      exact Utf8.char_injective <| (beq_iff_eq.mp hc).trans hb.symm

theorem encode_quoted (text : List Char) :
    quote :: encode text ++ [quote] = encode ('"' :: (text ++ ['"'])) := by
  rw [Utf8.encode_cons, Utf8.encode_append]
  rfl

theorem inner_quoted (text : List Char) :
    inner ⟨.quoted, quote :: encode text ++ [quote]⟩ = String.ofList text := by
  rw [inner, List.cons_append, List.drop_one, List.tail_cons, List.dropLast_concat,
    Utf8.text?_encode, Option.getD_some]

theorem exists_cutQuoted (cs : List Char) :
    ∃ p, (cutQuoted quote (encode cs)).1.Is (cutQuoted quote (encode cs)).2 p := by
  have hq : (· != quote) = fun b => char b != '"' := funext fun b => bne_char b quote
  have hn := bne_of_lt (d := '"') (by decide)
  have ht : (encode cs).takeWhile (· != quote) = encode (cs.takeWhile (· != '"')) :=
    hq ▸ Utf8.takeWhile_encode hn cs
  have hd : (encode cs).dropWhile (· != quote) = encode (cs.dropWhile (· != '"')) :=
    hq ▸ Utf8.dropWhile_encode hn cs
  have hs := stop_dropWhile (· != '"') cs
  have hi : '"' ∉ cs.takeWhile (· != '"') := not_mem_takeWhile_bne '"' cs
  rw [cutQuoted, ht, hd]
  cases hr : cs.dropWhile (· != '"')
  case nil =>
    rw [hr] at hd
    refine ⟨.unclosed (encode cs), rfl, .unclosed fun hm => ?_, fun _ => rfl⟩
    exact bne_iff_ne.mp (List.dropWhile_eq_nil_iff.mp hd quote hm) rfl
  case cons c rest =>
    rw [hr] at hs
    obtain rfl : c = '"' := bne_eq_false_iff_eq.mp <| hs c rfl
    refine ⟨_, .lexeme (encode_quoted _) (.string hi) (not_slashes nofun) (isLongest_string hi)
      fun line => ?_⟩
    rw [← inner_quoted]
    rfl

theorem isLetterOrDigit_eq_false (c : Char) (h : 0x80 ≤ c.toNat) : isLetterOrDigit c = false :=
  eq_false_of_ne_true fun ht => Nat.not_le.mpr (lt_of_isLetterOrDigit ht) h

theorem isDigit_eq_false (c : Char) (h : 0x80 ≤ c.toNat) : c.isDigit = false :=
  eq_false_of_ne_true fun ht => Nat.not_le.mpr (lt_of_isDigit ht) h

theorem exists_cutWord (h : isLetter (char b)) (cs : List Char) :
    ∃ p, (cutWord b (encode cs)).1.Is (cutWord b (encode cs)).2 p := by
  have hb : b.toNat < 0x80 := lt_of_isLetter h
  have ht : (encode cs).takeWhile isWordPart = encode (cs.takeWhile isLetterOrDigit) :=
    Utf8.takeWhile_encode isLetterOrDigit_eq_false cs
  have hd : (encode cs).dropWhile isWordPart = encode (cs.dropWhile isLetterOrDigit) :=
    Utf8.dropWhile_encode isLetterOrDigit_eq_false cs
  have hw : IsWord (char b :: cs.takeWhile isLetterOrDigit) :=
    .mk h fun _ => List.mem_takeWhile_imp
  have hn : char b ≠ '/' := fun he => by
    rw [he] at h
    contradiction
  rw [cutWord, ht, hd, ← Utf8.encode_char_cons hb]
  have hl := isLongest_word hw <| stop_dropWhile isLetterOrDigit cs
  refine ⟨_, .lexeme rfl hw.spells (not_slashes hn) hl fun line => ?_⟩
  rw [← content_of_encode (s := ⟨.word, encode (char b :: cs.takeWhile isLetterOrDigit)⟩) rfl]
  rfl

theorem read?_eq_numeral {text : List Char} (h : IsNumeral text) :
    Numeral.read? text = some (numeral ⟨.number, encode text⟩) := by
  have ⟨_, _, hx⟩ := h.exists_read?
  have ha : ∀ c ∈ text, c.toNat < 0x80 := fun c hc => by
    rcases h.all c hc with rfl | hd
    case inl => decide
    case inr => exact lt_of_isDigit hd
  rw [numeral, Utf8.map_char_encode ha, hx, Option.getD_some]

theorem is_number {text rest : List Char} (hn : IsNumeral text) (hl : IsLongest text rest) :
    ∃ p, Is ⟨.number, encode text⟩ (encode rest) p := by
  have hc : ¬['/', '/'] <+: text ++ rest := by
    obtain ⟨c, cs, rfl, hd⟩ := hn.exists_cons
    refine not_slashes fun he => ?_
    rw [he] at hd
    contradiction
  exact ⟨_, .lexeme rfl (.number hn <| read?_eq_numeral hn) hc hl fun _ => rfl⟩

theorem cutNumber_whole {rest : List UInt8} (hr : bytes.dropWhile isDigit = rest)
    (h : ∀ point digit more, rest = point :: digit :: more →
      (char point == '.' && isDigit digit) = false) :
    cutNumber b bytes = (⟨.number, b :: bytes.takeWhile isDigit⟩, rest) := by
  unfold cutNumber
  rw [hr]
  split
  case h_1 => rw [h _ _ _ rfl, if_neg Bool.false_ne_true]
  case h_2 => rfl

theorem cutNumber_fraction {point digit : UInt8} {rest : List UInt8}
    (hr : bytes.dropWhile isDigit = point :: digit :: rest) (hp : char point = '.')
    (hd : isDigit digit) :
    cutNumber b bytes = (⟨.number, b :: bytes.takeWhile isDigit ++
      point :: digit :: rest.takeWhile isDigit⟩, rest.dropWhile isDigit) := by
  unfold cutNumber
  rw [hr]
  simp only [hp, hd, beq_self_eq_true, Bool.and_self, if_true]

theorem fraction_of_encode {rest : List Char} {point digit : UInt8} {more : List UInt8}
    (he : encode rest = point :: digit :: more) (hp : char point = '.') (hd : isDigit digit) :
    ∃ c cs, rest = '.' :: c :: cs ∧ c.isDigit := by
  cases rest
  case nil => contradiction
  case cons c rest =>
    have ⟨_, _, hc, ht⟩ := Utf8.exists_encode_cons (beq_of_lt (d := '.') (by decide)) c rest
    cases hc.symm.trans he
    rw [hp, beq_self_eq_true] at ht
    obtain rfl : c = '.' := beq_iff_eq.mp ht.symm
    cases rest
    case nil => cases he
    case cons c rest =>
      have ⟨_, _, hc, ht⟩ := Utf8.exists_encode_cons isDigit_eq_false c rest
      have he := List.tail_eq_of_cons_eq he
      cases hc.symm.trans he
      exact ⟨c, rest, rfl, ht.symm.trans hd⟩

theorem takeWhile_isDigit_encode (cs : List Char) :
    (encode cs).takeWhile isDigit = encode (cs.takeWhile Char.isDigit) :=
  Utf8.takeWhile_encode isDigit_eq_false cs

theorem dropWhile_isDigit_encode (cs : List Char) :
    (encode cs).dropWhile isDigit = encode (cs.dropWhile Char.isDigit) :=
  Utf8.dropWhile_encode isDigit_eq_false cs

theorem isDigits_cons {c : Char} (h : c.isDigit) (cs : List Char) :
    IsDigits (c :: cs.takeWhile Char.isDigit) :=
  ⟨nofun, List.forall_mem_cons.mpr ⟨h, fun _ => List.mem_takeWhile_imp⟩⟩

section Number

variable (h : isDigit b)

include h

theorem cutNumber_encode_whole
    (hf : ¬∃ c more, cs.dropWhile Char.isDigit = '.' :: c :: more ∧ c.isDigit) :
    cutNumber b (encode cs) = (⟨.number, encode (char b :: cs.takeWhile Char.isDigit)⟩,
      encode (cs.dropWhile Char.isDigit)) := by
  have hn : ∀ point digit more, encode (cs.dropWhile Char.isDigit) = point :: digit :: more →
      (char point == '.' && isDigit digit) = false := by
    intro point digit more he
    refine eq_false_of_ne_true fun hp => ?_
    have ⟨hp, hg⟩ := Bool.and_eq_true_iff.mp hp
    exact hf <| fraction_of_encode he (beq_iff_eq.mp hp) hg
  rw [cutNumber_whole (dropWhile_isDigit_encode cs) hn, takeWhile_isDigit_encode,
    ← Utf8.encode_char_cons (lt_of_isDigit h)]

theorem cutNumber_encode_fraction {c : Char} {more : List Char}
    (hr : cs.dropWhile Char.isDigit = '.' :: c :: more) (hc : c.isDigit) :
    cutNumber b (encode cs) = (⟨.number, encode (char b :: cs.takeWhile Char.isDigit ++
      '.' :: c :: more.takeWhile Char.isDigit)⟩, encode (more.dropWhile Char.isDigit)) := by
  have ⟨digit, hg, he⟩ := Utf8.utf8EncodeChar_of_lt (lt_of_isDigit hc)
  have hd : (encode cs).dropWhile isDigit = '.'.toUInt8 :: digit :: encode more := by
    rw [dropWhile_isDigit_encode, hr, Utf8.encode_cons, Utf8.encode_cons, he]
    rfl
  have hg : isDigit digit := (congrArg Char.isDigit hg).trans hc
  rw [cutNumber_fraction hd rfl hg, takeWhile_isDigit_encode, takeWhile_isDigit_encode,
    dropWhile_isDigit_encode, ← Utf8.encode_char_cons (lt_of_isDigit h), Utf8.encode_append,
    Utf8.encode_cons '.', Utf8.encode_cons c, he]
  rfl

theorem exists_cutNumber (cs : List Char) :
    ∃ p, (cutNumber b (encode cs)).1.Is (cutNumber b (encode cs)).2 p := by
  have hw := isDigits_cons h cs
  by_cases hf : ∃ c more, cs.dropWhile Char.isDigit = '.' :: c :: more ∧ c.isDigit
  case pos =>
    have ⟨c, more, hr, hc⟩ := hf
    have hf := isDigits_cons hc more
    rw [cutNumber_encode_fraction h hr hc]
    exact is_number (.fraction hw hf) <|
      isLongest_fraction hw hf <| stop_dropWhile Char.isDigit more
  case neg =>
    have hf' : ∀ c more, cs.dropWhile Char.isDigit = '.' :: c :: more → c.isDigit = false :=
      fun c more he => eq_false_of_ne_true fun hc => hf ⟨c, more, he, hc⟩
    rw [cutNumber_encode_whole h hf]
    exact is_number (.whole hw) <| isLongest_whole hw (stop_dropWhile Char.isDigit cs) hf'

end Number

theorem cutSymbol_single {token : Token} (h : symbol? (char b) = some token)
    (hr : ∀ e more, (symbolEqual? (char b)).isSome → bytes = e :: more → char e ≠ '=') :
    cutSymbol b bytes = (⟨.symbol token, [b]⟩, bytes) := by
  rw [cutSymbol, h]
  dsimp only
  split
  case h_1 he => rw [if_neg fun hc => hr _ _ (by rw [he]; rfl) rfl <| beq_iff_eq.mp hc]
  case h_2 => rfl

theorem cutSymbol_double {token token' : Token} {rest : List UInt8}
    (h : symbol? (char b) = some token) (he : symbolEqual? (char b) = some token') :
    cutSymbol b ('='.toUInt8 :: rest) = (⟨.symbol token', [b, '='.toUInt8]⟩, rest) := by
  rw [cutSymbol, h, he]
  rfl

theorem not_slashes_of_startsComment (h : startsComment b (encode cs) = false) :
    ¬['/', '/'] <+: char b :: cs := by
  intro hp
  obtain ⟨hb, more, rfl⟩ := List.cons_prefix_cons.mp hp
  rw [List.cons_append, Utf8.encode_cons] at h
  have ht : startsComment b (Piece.slash :: encode more) = true := by
    rw [startsComment, ← hb]
    rfl
  exact Bool.false_ne_true <| h.symm.trans ht

theorem exists_symbol {token : Token} (h : symbol? (char b) = some token)
    (hc : startsComment b (encode cs) = false) :
    ∃ p, (cutSymbol b (encode cs)).1.Is (cutSymbol b (encode cs)).2 p := by
  have ⟨hs, hb, _⟩ := symbol?_cases h
  have hn := not_slashes_of_startsComment hc
  by_cases hd : (symbolEqual? (char b)).isSome ∧ cs.head? = some '='
  case pos =>
    have ⟨token', he⟩ := Option.isSome_iff_exists.mp hd.left
    obtain ⟨rest, rfl⟩ := List.head?_eq_some_iff.mp hd.right
    have hd : cutSymbol b (encode ('=' :: rest)) = _ := cutSymbol_double h he
    rw [hd]
    refine ⟨_, .lexeme ?spelled (.symbol (symbolEqual?_cases he).left) hn
      (isLongest_symbolEqual he) fun _ => rfl⟩
    case spelled =>
      rw [Utf8.encode_char_cons hb]
      rfl
  case neg =>
    have hr : ∀ e more, (symbolEqual? (char b)).isSome → encode cs = e :: more →
        char e ≠ '=' := by
      intro e more hi he hm
      have hf : (encode cs)[0]? = some e := by rw [he, List.getElem?_cons_zero]
      have ⟨rest, hc⟩ := (getElem?_zero_encode_iff (by decide) hm).mp hf
      exact hd ⟨hi, congrArg List.head? hc⟩
    rw [cutSymbol_single h hr]
    refine ⟨_, .lexeme (Utf8.encode_char_cons hb []).symm (.symbol hs) hn
      (isLongest_symbol h fun hi hm => hd ⟨hi, hm⟩) fun _ => rfl⟩

theorem is_stray (hb : b ∉ Piece.blanks) (hq : b ≠ quote) (hd : ¬isDigit b)
    (hl : ¬isLetter (char b)) (hs : symbol? (char b) = none) :
    Is ⟨.stray, [b]⟩ bytes (.stray b) where
  bytes    := rfl
  precedes := by
    refine .stray hb fun text token ht he => ?_
    have ⟨b', cs, htext, hh⟩ := Piece.encode_of_spells ht
    obtain rfl : b' = b := by
      rw [hh] at he
      exact Option.some.inj he
    have ⟨_, _, hc, ho⟩ := ht.exists_cons
    cases htext.symm.trans hc
    rcases ho with ho | ho | ho
    case inl => exact hq <| Utf8.char_injective ho
    case inr.inl => exact (isLetterOrDigit_iff.mp ho).elim hl hd
    case inr.inr =>
      rw [hs] at ho
      contradiction
  item?    := fun _ => rfl

-- The core lemma for `Scan.ofSource_decomposition`: whatever is cut from the rest of a text is a
-- piece of it. The rest need not begin between two characters, as stray bytes are cut one by one.
theorem exists_piece (h : EndsText (b :: bytes)) :
    ∃ p, (cut b bytes).1.Is (cut b bytes).2 p := by
  rw [cut]
  split
  case isTrue hb => exact ⟨_, is_blank hb⟩
  case isFalse hb =>
  split
  case isTrue hq =>
    -- All bytes that open a piece of more than one byte are below 0x80, so characters follow them.
    obtain rfl : b = quote := beq_iff_eq.mp hq
    obtain ⟨cs, rfl, _⟩ := h.exists_text (by decide)
    exact exists_cutQuoted cs
  case isFalse hq =>
  split
  case isTrue hd =>
    obtain ⟨cs, rfl, _⟩ := h.exists_text <| lt_of_isDigit hd
    exact exists_cutNumber hd cs
  case isFalse hd =>
  split
  case isTrue hl =>
    obtain ⟨cs, rfl, _⟩ := h.exists_text <| lt_of_isLetter hl
    exact exists_cutWord hl cs
  case isFalse hl =>
  split
  case isTrue hc => exact exists_cutComment hc
  case isFalse hc =>
  cases hs : symbol? (char b)
  case none =>
    have he : cutSymbol b bytes = (⟨.stray, [b]⟩, bytes) := by rw [cutSymbol, hs]
    rw [he]
    exact ⟨_, is_stray (mt isBlank_iff.mpr hb) (fun he => hq <| beq_iff_eq.mpr he) hd hl hs⟩
  case some token =>
    obtain ⟨cs, rfl, _⟩ := h.exists_text (symbol?_cases hs).right.left
    exact exists_symbol hs <| eq_false_of_ne_true hc

end Segment

namespace Cursor

def answer : Nat → Cursor → Option Item
  | 0, c     => c.next.1
  | n + 1, c => answer n c.next.2

theorem isSome_next_go (line : Nat) (ss : List Segment) : (next.go line ss).1.isSome := by
  induction ss generalizing line
  case nil => rfl
  case cons s ss hi =>
    rw [next.go]
    split
    case h_1 => rfl
    case h_2 => exact hi _

theorem items_eq_nil_of_next {c : Cursor} (h : c.next.1 = none) :
    c.items = [] ∧ c.next.2.items = [] := by
  have hi : c.items = [] := by
    rw [items]
    split
    case isTrue => rfl
    case isFalse he =>
      rw [next, if_neg he] at h
      have hs := isSome_next_go c.line c.rest
      rw [h] at hs
      contradiction
  rw [(items_eq_nil_iff c).mp hi]
  exact ⟨hi, hi⟩

theorem answer_eq (n : Nat) (c : Cursor) : c.answer n = c.items[n]? := by
  have he := c.items_eq_next
  induction n generalizing c
  case zero =>
    rw [answer]
    cases hn : c.next.1
    case none => rw [(items_eq_nil_of_next hn).left, List.getElem?_nil]
    case some =>
      rw [he, hn, Option.toList_some, List.singleton_append, List.getElem?_cons_zero]
  case succ n hi =>
    rw [answer, hi _ c.next.2.items_eq_next]
    cases hn : c.next.1
    case none =>
      have ⟨hl, hr⟩ := items_eq_nil_of_next hn
      rw [hl, hr, List.getElem?_nil, List.getElem?_nil]
    case some =>
      rw [he, hn, Option.toList_some, List.singleton_append, List.getElem?_cons_succ]

end Cursor

namespace Piece

def items (line : Nat) : List Piece → List Item
  | []      => []
  | p :: ps =>
    (p.item? (line + p.bytes.count newline)).toList ++ items (line + p.bytes.count newline) ps

theorem exists_decomposition (bytes : List UInt8) (h : EndsText bytes) (line : Nat) :
    ∃ ps, Decomposes bytes ps ∧ Cursor.items.go line (Segment.ofBytes bytes) =
      items line ps ++ [.lexeme ⟨.eof, "", line + bytes.count newline⟩] := by
  fun_induction Segment.ofBytes bytes generalizing line
  case case1 => exact ⟨[], .nil, rfl⟩
  case case2 b bytes hi =>
    obtain ⟨p, hb, hp, ht⟩ := Segment.exists_piece h
    have he := Segment.cut_bytes b bytes
    rw [hb] at he
    have hr : EndsText (Segment.cut b bytes).2 := by
      rw [← he] at h
      exact h.of_append
    obtain ⟨ps, hd, hs⟩ := hi hr (line + p.bytes.count newline)
    refine ⟨p :: ps, he ▸ .cons hp hd, ?_⟩
    rw [Cursor.items.go, Segment.newlines, hb, ht, hs, items, List.append_assoc, ← he,
      List.count_append, Nat.add_assoc]

theorem token_ne_eof_of_mem_items {bytes : List UInt8} {ps : List Piece} {line : Nat} {l : Lexeme}
    (h : Decomposes bytes ps) (hl : .lexeme l ∈ items line ps) : l.token ≠ .eof := by
  induction h generalizing line
  case nil => contradiction
  case cons p rest ps hp _ hi =>
    rcases List.mem_append.mp hl with hm | hm
    case inr => exact hi hm
    case inl =>
      clear hl
      cases hp
      case lexeme hs _ _ =>
        cases List.mem_singleton.mp hm
        exact hs.token_ne_eof
      all_goals simp [item?] at hm

end Piece

namespace Item

def lexeme? : Item → Option Lexeme
  | lexeme l => some l
  | error _  => none

def error? : Item → Option ScanError
  | lexeme _ => none
  | error e  => some e

end Item

-- A source falls apart into pieces in one way. They give the items, each once, and then comes the
-- end, once, and nothing behind it.
theorem Scan.ofSource_decomposition (source : String) :
    ∃ pieces, (∀ ps, Piece.Decomposes (encode source.toList) ps ↔ ps = pieces) ∧
      let items := Piece.items 1 pieces
      let eof : Lexeme := ⟨.eof, "", 1 + (encode source.toList).count newline⟩
      (∀ n, (Cursor.ofSource source).answer n = (items ++ [.lexeme eof])[n]?) ∧
      (∀ l, .lexeme l ∈ items → l.token ≠ .eof) ∧
      (Scan.ofSource source).lexemes = items.filterMap Item.lexeme? ++ [eof] ∧
      (Scan.ofSource source).errors = items.filterMap Item.error? := by
  have ⟨pieces, hd, hi⟩ :=
    Piece.exists_decomposition _ (Utf8.endsText_encode source.toList) 1
  have hi : (Cursor.ofSource source).items = _ := hi
  have hs : Scan.ofSource source = Scan.ofItems _ := congrArg Scan.ofItems hi
  refine ⟨pieces, fun ps => ⟨fun h => h.unique hd, fun h => h ▸ hd⟩, fun n => ?_,
    fun l => Piece.token_ne_eof_of_mem_items hd, ?_, ?_⟩
  case refine_1 => rw [Cursor.answer_eq, hi]
  case refine_2 =>
    rw [hs]
    exact List.filterMap_append ..
  case refine_3 =>
    rw [hs]
    exact List.filterMap_append.trans <| List.append_nil _

end Lox
