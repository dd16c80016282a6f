import Lox.Proofs.Lexing.Scanner

namespace Lox.Scanner

open Segment (char newline quote isBlank isDigit isWordStart isWordPart symbol? symbolEqual?
  startsComment cut)
open Utf8 (encode slice?)

section Strings

variable {inner : List Char} (hq : '"' ∉ inner) (before rest : List Char) (line : Nat)
  (ended : Bool)

include hq

theorem advanceUntil?_quote (hr : ∀ c ∈ rest.head?, c = '"') :
    advanceUntil? (encode (before ++ '"' :: (inner ++ rest))) (· == quote)
        ((encode before).length + 1) (behind (before ++ ['"']) line ended) =
      some (String.ofList inner,
        behind (before ++ '"' :: inner) (line + inner.count '\n') ended) := by
  have hb : (fun b => !(b == quote)) = fun b => char b != '"' :=
    funext fun b => Segment.bne_char b quote
  have ht : (inner ++ rest).takeWhile (· != '"') = inner :=
    takeWhile_append_of_stop (fun _ hm => bne_iff_ne.mpr fun he => hq <| he ▸ hm)
      fun c hm => by rw [hr c hm, bne_self_eq_false]
  have hl : (encode (before ++ ['"'])).length = (encode before).length + 1 := by
    rw [Utf8.encode_append, List.length_append]
    rfl
  have ha := advanceUntil?_eq (Segment.bne_of_lt (d := '"') (by decide)) hb (before ++ ['"']) []
    (inner ++ rest) line ended
  rw [ht, hl, List.append_nil, List.append_assoc, List.append_assoc, List.nil_append] at ha
  exact ha

theorem string?_unclosed :
    found <$> string? (encode (before ++ '"' :: inner)) (encode before).length
        (behind (before ++ ['"']) line ended) =
      some ((behind before line ended).answer ⟨.unclosed, quote :: encode inner⟩) := by
  have ha := advanceUntil?_quote hq before [] line ended nofun
  have hp := peek?_behind (before ++ '"' :: inner) [] (line + inner.count '\n') ended
  have hb : Segment.bytes ⟨.unclosed, quote :: encode inner⟩ = encode ('"' :: inner) := rfl
  have hc : ('"' :: inner).count '\n' = inner.count '\n' := List.count_cons_of_ne (by decide)
  rw [List.append_nil] at ha hp
  rw [string?, ha, answer_eq hb, hc, Option.bind_eq_bind, Option.bind_some]
  dsimp only
  rw [hp]
  rfl

theorem string?_closed :
    found <$> string? (encode (before ++ '"' :: (inner ++ '"' :: rest))) (encode before).length
        (behind (before ++ ['"']) line ended) =
      some ((behind before line ended).answer ⟨.quoted, quote :: encode inner ++ [quote]⟩) := by
  let text := '"' :: (inner ++ ['"'])
  let line' := line + inner.count '\n'
  have ha : advanceUntil? _ _ _ _ = some (_, behind _ line' ended) :=
    advanceUntil?_quote hq before ('"' :: rest) line ended fun _ hm => (Option.some.inj hm).symm
  have hb : Segment.bytes ⟨.quoted, quote :: encode inner ++ [quote]⟩ = encode text :=
    Segment.encode_quoted inner
  have hc : text.count '\n' = inner.count '\n' := by
    rw [List.count_cons_of_ne (by decide), List.count_append]
    rfl
  have hi : Segment.item? ⟨.quoted, quote :: encode inner ++ [quote]⟩ line' =
      some (.lexeme ⟨.literal (.string (String.ofList inner)), String.ofList text, line'⟩) := by
    rw [← Segment.inner_quoted, ← Segment.content_of_encode hb]
    rfl
  have hp : peek? (encode (before ++ '"' :: inner ++ '"' :: rest)) _ = some quote :=
    peek?_behind (before ++ '"' :: inner) ('"' :: rest) line' ended
  have hs : (behind (before ++ '"' :: inner) line' ended).advance =
      behind (before ++ text) line' ended := by
    rw [advance_behind (b := quote) (by decide), List.append_assoc]
    rfl
  have hv := slice?_behind before text rest line' ended
  rw [List.append_assoc, List.cons_append] at hp
  rw [List.append_assoc, List.cons_append, List.append_assoc, List.singleton_append] at hv
  rw [string?, ha, answer_eq hb, hc, hi, Option.bind_eq_bind, Option.bind_some]
  dsimp only
  rw [hp, hs]
  dsimp only
  rw [beq_self_eq_true, if_pos rfl, hv]
  rfl

end Strings

section Forms

variable (before cs : List Char) (line : Nat) (ended : Bool)

theorem string?_eq :
    found <$> string? (encode (before ++ '"' :: cs)) (encode before).length
        (behind (before ++ ['"']) line ended) =
      some ((behind before line ended).answer (Segment.cutQuoted quote (encode cs)).1) := by
  have hq : (· != quote) = fun b => char b != '"' := funext fun b => Segment.bne_char b quote
  have hn := Segment.bne_of_lt (d := '"') (by decide)
  have ht : (encode cs).takeWhile (· != quote) = encode (cs.takeWhile (· != '"')) :=
    hq ▸ Utf8.takeWhile_encode hn cs
  have hd : (encode cs).dropWhile (· != quote) = encode (cs.dropWhile (· != '"')) :=
    hq ▸ Utf8.dropWhile_encode hn cs
  have hi := not_mem_takeWhile_bne '"' cs
  have hs := stop_dropWhile (· != '"') cs
  have he := List.takeWhile_append_dropWhile (p := (· != '"')) (l := cs)
  rw [Segment.cutQuoted, ht, hd]
  generalize cs.takeWhile (· != '"') = inner at hi he
  generalize cs.dropWhile (· != '"') = rest at hs he
  subst he
  cases rest
  case nil =>
    rw [List.append_nil]
    exact string?_unclosed hi before line ended
  case cons c rest =>
    obtain rfl : c = '"' := bne_eq_false_iff_eq.mp <| hs c rfl
    exact string?_closed hi before rest line ended

theorem word?_eq {b : UInt8} (h : isWordStart b) :
    found <$> word? (encode (before ++ char b :: cs)) (encode before).length
        (behind (before ++ [char b]) line ended) =
      some ((behind before line ended).answer (Segment.cutWord b (encode cs)).1) := by
  let text := char b :: cs.takeWhile isLetterOrDigit
  have hq : (fun b => !!isWordPart b) = fun b => isLetterOrDigit (char b) :=
    funext fun b => Bool.not_not _
  have ha := advanceUntil?_eq Segment.isLetterOrDigit_eq_false hq before [char b] cs line ended
  have ht : (encode cs).takeWhile isWordPart = encode (cs.takeWhile isLetterOrDigit) :=
    Utf8.takeWhile_encode Segment.isLetterOrDigit_eq_false cs
  have hb : Segment.bytes ⟨.word, b :: encode (cs.takeWhile isLetterOrDigit)⟩ = encode text :=
    (Utf8.encode_char_cons (lt_of_isLetter h) _).symm
  have hn : char b ≠ '\n' := fun he => by
    have hl : isLetter (char b) := h
    rw [he] at hl
    exact absurd hl (by decide)
  have hc : text.count '\n' = (cs.takeWhile isLetterOrDigit).count '\n' :=
    List.count_cons_of_ne hn
  rw [List.append_assoc, List.append_assoc, List.singleton_append, List.singleton_append] at ha
  rw [word?, ha, Segment.cutWord, ht, answer_eq hb, hc, Segment.item?, Segment.content_of_encode hb]
  rfl

theorem count_newline_digits {digits : List Char} (h : ∀ c ∈ digits, c.isDigit) :
    digits.count '\n' = 0 :=
  List.count_eq_zero_of_not_mem fun hm => absurd (h _ hm) (by decide)

theorem advanceUntil?_isDigit (part : List Char) :
    advanceUntil? (encode (before ++ part ++ cs)) (!isDigit ·) (encode before).length
        (behind (before ++ part) line ended) =
      some (String.ofList (part ++ cs.takeWhile Char.isDigit),
        behind (before ++ part ++ cs.takeWhile Char.isDigit) line ended) := by
  have hq : (fun b => !!isDigit b) = fun b => (char b).isDigit := funext fun b => Bool.not_not _
  have hc : (cs.takeWhile Char.isDigit).count '\n' = 0 :=
    count_newline_digits fun _ => List.mem_takeWhile_imp
  have ha := advanceUntil?_eq Segment.isDigit_eq_false hq before part cs line ended
  rwa [hc, Nat.add_zero] at ha

theorem fraction_iff (before rest : List Char) (line : Nat) (ended : Bool) :
    let s := behind before line ended
    let bytes := encode (before ++ rest)
    ((s.peek? bytes).any (char · == '.') && (s.peekNext? bytes).any isDigit) = true ↔
      ∃ c more, rest = '.' :: c :: more ∧ c.isDigit := by
  intro s bytes
  have hp : s.peek? bytes = (encode rest)[0]? := peek?_behind before rest line ended
  have hn : s.peekNext? bytes = (encode rest)[1]? := peekNext?_behind before rest line ended
  rw [hp, hn]
  constructor
  case mp =>
    intro h
    cases he : encode rest
    case nil =>
      rw [he] at h
      contradiction
    case cons point more =>
      rw [he] at h
      cases more
      case nil =>
        rw [Bool.and_comm] at h
        contradiction
      case cons digit more =>
        have ⟨hp, hd⟩ := Bool.and_eq_true_iff.mp h
        exact Segment.fraction_of_encode he (beq_iff_eq.mp hp) hd
  case mpr =>
    intro ⟨c, more, hr, hc⟩
    have ⟨digit, hg, he⟩ := Utf8.utf8EncodeChar_of_lt (lt_of_isDigit hc)
    have hg : isDigit digit := (congrArg Char.isDigit hg).trans hc
    rw [hr, Utf8.encode_cons, Utf8.encode_cons, he]
    exact hg

theorem numeral?_eq {b : UInt8} (h : isDigit b) :
    ∃ text, IsNumeral text ∧ (Segment.cutNumber b (encode cs)).1 = ⟨.number, encode text⟩ ∧
      numeral? (encode (before ++ char b :: cs)) (encode before).length
          (behind (before ++ [char b]) line ended) =
        some (String.ofList text, behind (before ++ text) line ended) := by
  have hw := Segment.isDigits_cons h cs
  have ha := advanceUntil?_isDigit before cs line ended [char b]
  have hf := fraction_iff (before ++ char b :: cs.takeWhile Char.isDigit)
    (cs.dropWhile Char.isDigit) line ended
  simp only [List.append_assoc, List.cons_append, List.nil_append,
    List.takeWhile_append_dropWhile] at ha hf
  rw [numeral?, ha, Option.bind_eq_bind, Option.bind_some]
  dsimp only
  split
  case isTrue hp =>
    have ⟨c, more, hr, hc⟩ := hf.mp hp
    have hd := Segment.isDigits_cons hc more
    have he := congrArg Prod.fst <| Segment.cutNumber_encode_fraction h hr hc
    refine ⟨_, .fraction hw hd, he, ?_⟩
    -- The point is passed, and the digits behind it.
    let part := char b :: cs.takeWhile Char.isDigit ++ ['.']
    have ht : before ++ char b :: cs = before ++ part ++ c :: more := by
      simp only [part, List.append_assoc, List.cons_append, List.nil_append]
      rw [← hr, List.takeWhile_append_dropWhile]
    have hs : (behind (before ++ char b :: cs.takeWhile Char.isDigit) line ended).advance =
        behind (before ++ part) line ended := by
      rw [advance_behind (b := '.'.toUInt8) (by decide), List.append_assoc]
      rfl
    rw [ht, hs, advanceUntil?_isDigit, List.takeWhile_cons_of_pos hc, List.append_assoc before,
      List.append_assoc _ ['.']]
    rfl
  case isFalse hp =>
    exact ⟨_, .whole hw, congrArg Prod.fst <| Segment.cutNumber_encode_whole h (mt hf.mpr hp), rfl⟩

theorem number?_eq {b : UInt8} (h : isDigit b) :
    found <$> number? (encode (before ++ char b :: cs)) (encode before).length
        (behind (before ++ [char b]) line ended) =
      some ((behind before line ended).answer (Segment.cutNumber b (encode cs)).1) := by
  have ⟨text, hn, he, ht⟩ := numeral?_eq before cs line ended h
  have hc : text.count '\n' = 0 := List.count_eq_zero_of_not_mem fun hm =>
    absurd (hn.all _ hm) (by decide)
  have hb : Segment.bytes ⟨.number, encode text⟩ = encode text := rfl
  rw [number?, ht, he, answer_eq hb, hc, Option.bind_eq_bind, Option.bind_some]
  dsimp only
  rw [String.toList_ofList, Segment.read?_eq_numeral hn, Segment.item?,
    Segment.content_of_encode hb]
  rfl

section Expected

variable {b e : UInt8} {d : Char} (hd : d.toNat < 0x80) (he : char e = d)

include hd he

theorem expect?_cons (more : List Char) :
    expect? (encode (before ++ char b :: d :: more)) e (encode before).length
        (behind (before ++ [char b]) line ended) =
      some (some (String.ofList [char b, d]), behind (before ++ [char b, d]) line ended) := by
  have hp := peek?_behind (before ++ [char b]) (d :: more) line ended
  have hs := advance_behind (he ▸ hd : (char e).toNat < 0x80) (before ++ [char b]) line ended
  have hv := slice?_behind before [char b, d] more line ended
  rw [(Segment.getElem?_zero_encode_iff hd he).mpr ⟨more, rfl⟩] at hp
  simp only [List.append_assoc, List.cons_append, List.nil_append, he] at hp hs hv
  rw [expect?, hp, beq_self_eq_true, if_pos rfl, hs, hv]
  rfl

theorem expect?_of_ne (h : ¬∃ more, cs = d :: more) :
    expect? (encode (before ++ char b :: cs)) e (encode before).length
        (behind (before ++ [char b]) line ended) =
      some (none, behind (before ++ [char b]) line ended) := by
  have hp := peek?_behind (before ++ [char b]) cs line ended
  rw [List.append_assoc, List.singleton_append] at hp
  rw [expect?, hp, if_neg]
  exact mt beq_iff_eq.mp <| mt (Segment.getElem?_zero_encode_iff hd he).mp h

end Expected

theorem comment?_eq :
    comment? (encode (before ++ cs)) (behind before line ended) =
      some (behind (before ++ cs.takeWhile (· != '\n')) line ended) := by
  have hq : (fun b => !(b == newline)) = fun b => char b != '\n' :=
    funext fun b => Segment.bne_char b newline
  have hc : (cs.takeWhile (· != '\n')).count '\n' = 0 :=
    List.count_eq_zero_of_not_mem <| not_mem_takeWhile_bne '\n' cs
  have ha := advanceUntil?_eq (Segment.bne_of_lt (d := '\n') (by decide)) hq before [] cs line ended
  rw [List.append_nil, hc] at ha
  rw [comment?]
  change Option.bind (advanceUntil? _ _ (encode before).length _) _ = _
  rw [ha]
  rfl

section Symbols

variable {b : UInt8} {single double : Token} (h : symbol? (char b) = some single)

include h

theorem answer_symbol (token : Token) (part : List Char) (hp : '\n' ∉ part) :
    let s := behind (before ++ char b :: part) line ended
    (behind before line ended).answer ⟨.symbol token, b :: encode part⟩ =
      (some <| s.lexeme token (String.ofList (char b :: part)), s) := by
  have hb : Segment.bytes ⟨.symbol token, b :: encode part⟩ = encode (char b :: part) :=
    (Utf8.encode_char_cons (symbol?_cases h).right.left part).symm
  have hn : char b ≠ '\n' := fun he => by
    rw [he] at h
    contradiction
  have hc : (char b :: part).count '\n' = 0 := by
    rw [List.count_cons_of_ne hn, List.count_eq_zero_of_not_mem hp]
  rw [answer_eq hb, hc, Segment.item?, Segment.content_of_encode hb]
  rfl

theorem oneOrTwo?_eq (h' : symbolEqual? (char b) = some double) :
    found <$> oneOrTwo? (encode (before ++ char b :: cs)) single double (encode before).length
        (behind (before ++ [char b]) line ended) =
      some ((behind before line ended).answer (Segment.cutSymbol b (encode cs)).1) := by
  by_cases he : ∃ more, cs = '=' :: more
  case pos =>
    obtain ⟨more, rfl⟩ := he
    have hd : Segment.cutSymbol b (encode ('=' :: more)) = _ := Segment.cutSymbol_double h h'
    have ha : answer _ ⟨.symbol double, [b, '='.toUInt8]⟩ = _ :=
      answer_symbol before line ended h double ['='] (by decide)
    rw [oneOrTwo?, hd, ha, expect?_cons before line ended (d := '=') (by decide) rfl]
    rfl
  case neg =>
    have hd : Segment.cutSymbol b (encode cs) = _ :=
      Segment.cutSymbol_single h fun e more _ hm hc => he <|
        (Segment.getElem?_zero_encode_iff (by decide) hc).mp (by rw [hm, List.getElem?_cons_zero])
    have ha : answer _ ⟨.symbol single, [b]⟩ = _ :=
      answer_symbol before line ended h single [] List.not_mem_nil
    have hv := slice?_behind before [char b] cs line ended
    rw [List.append_assoc, List.singleton_append] at hv
    rw [oneOrTwo?, hd, ha, expect?_of_ne before cs line ended (d := '=') (by decide) rfl he,
      Option.bind_eq_bind, Option.bind_some]
    dsimp only
    rw [hv]
    rfl

theorem lexeme_eq_of_symbol (h' : symbolEqual? (char b) = none) :
    let s := behind (before ++ [char b]) line ended
    (some <| s.lexeme single (String.ofList [char b]), s) =
      (behind before line ended).answer (Segment.cutSymbol b (encode cs)).1 := by
  have hd : Segment.cutSymbol b (encode cs) = _ :=
    Segment.cutSymbol_single h fun _ _ hs => by
      rw [h'] at hs
      contradiction
  rw [hd]
  exact (answer_symbol before line ended h single [] List.not_mem_nil).symm

end Symbols

theorem startsComment_iff {b : UInt8} :
    startsComment b (encode cs) ↔ char b = '/' ∧ ∃ more, cs = '/' :: more := by
  rw [← Segment.getElem?_zero_encode_iff (d := '/') (b := Piece.slash) (by decide) rfl]
  cases encode cs
  case nil => exact ⟨nofun, nofun⟩
  case cons b' bytes =>
    rw [startsComment, Bool.and_eq_true, beq_iff_eq, beq_iff_eq, List.getElem?_cons_zero,
      Option.some.injEq, Segment.char_eq_iff (b := b') (c := '/') rfl]
    rfl

theorem answer_comment {b : UInt8} (hb : char b = '/') :
    (behind before line ended).answer (Segment.cutComment b (encode ('/' :: cs))).1 =
      (none, behind (before ++ [char b, '/'] ++ cs.takeWhile (· != '\n')) line ended) := by
  let text := char b :: '/' :: cs.takeWhile (· != '\n')
  have hl : b.toNat < 0x80 := by
    rw [Segment.char_eq_iff (c := '/') rfl] at hb
    rw [hb]
    decide
  have hq : (· != newline) = fun b => char b != '\n' := funext fun b => Segment.bne_char b newline
  have ht : Segment.bytes (Segment.cutComment b (encode ('/' :: cs))).1 = encode text := by
    rw [Utf8.encode_char_cons hl, Segment.cutComment, hq,
      Utf8.takeWhile_encode (Segment.bne_of_lt (d := '\n') (by decide)),
      List.takeWhile_cons_of_pos (by decide)]
  have hc : text.count '\n' = 0 := by
    rw [List.count_cons_of_ne (by rw [hb]; decide), List.count_cons_of_ne (by decide)]
    exact List.count_eq_zero_of_not_mem <| not_mem_takeWhile_bne '\n' cs
  rw [answer_eq ht, hc, List.append_assoc]
  rfl

theorem answer_of_single (kind : Segment.Kind) (b : UInt8) (s : Scanner) :
    s.answer ⟨kind, [b]⟩ =
      (Segment.item? ⟨kind, [b]⟩ (s.line + [b].count newline), s.pass b) := by
  rw [pass_eq]
  rfl

section Stray

variable {bytes : List UInt8} {b : UInt8} (hb : ¬isBlank b) (hq : ¬b == quote) (hd : ¬isDigit b)
  (hl : ¬isWordStart b) (hs : symbol? (char b) = none)

include hb hq hd hl hs

theorem step?_of_stray (start : Nat) (s : Scanner) :
    step? bytes start b s = some (some <| s.error .unexpectedCharacter, s) := by
  rw [step?, if_neg hb, if_neg hq, if_neg hd, if_neg hl, hs]

theorem answer_of_stray (more : List UInt8) (s : Scanner) :
    s.answer (cut b more).1 = (some <| s.error .unexpectedCharacter, s.advance) := by
  have hc : ¬startsComment b more := by
    cases more
    case nil => nofun
    case cons =>
      intro hc
      rw [beq_iff_eq.mp (Bool.and_eq_true_iff.mp hc).left] at hs
      contradiction
  have hn : [b].count newline = 0 := List.count_eq_zero_of_not_mem fun hm => hb <| by
    rw [← List.mem_singleton.mp hm]
    rfl
  rw [cut, if_neg hb, if_neg hq, if_neg hd, if_neg hl, if_neg hc, Segment.cutSymbol, hs,
    answer_of_single, hn, pass_eq, hn]
  rfl

end Stray

-- Behind an ASCII character the scanner cuts between characters only, and comes to what the segment
-- that begins there comes to. There is a case for each form of lexeme, of which the lemmas above
-- say where it ends.
theorem step?_of_lt {b : UInt8} (hb : b.toNat < 0x80) :
    step? (encode (before ++ char b :: cs)) (encode before).length b
        (behind (before ++ [char b]) line ended) =
      some ((behind before line ended).answer (Segment.cut b (encode cs)).1) := by
  have hv := slice?_behind before [char b] cs line ended
  rw [List.append_assoc, List.singleton_append] at hv
  rw [step?, hv, Option.getD_some, Segment.cut]
  split
  case isTrue =>
    rw [← advance_behind hb, answer_of_single, pass]
    split <;> rfl
  case isFalse hn =>
  split
  case isTrue hq =>
    obtain rfl : b = quote := beq_iff_eq.mp hq
    exact string?_eq before cs line ended
  case isFalse hq =>
  split
  case isTrue hd => exact number?_eq before cs line ended hd
  case isFalse hd =>
  split
  case isTrue hl => exact word?_eq before cs line ended hl
  case isFalse hl =>
  split
  case h_1 single double h h' =>
    have hc : ¬startsComment b (encode cs) := fun hc => by
      rw [((startsComment_iff cs).mp hc).left] at h'
      contradiction
    rw [if_neg hc]
    exact oneOrTwo?_eq before cs line ended h h'
  case h_2 token h h' =>
    split
    case isTrue hs =>
      have hs := beq_iff_eq.mp hs
      by_cases hm : ∃ more, cs = '/' :: more
      case pos =>
        rw [if_pos ((startsComment_iff cs).mpr ⟨hs, hm⟩)]
        obtain ⟨more, rfl⟩ := hm
        have hc := comment?_eq (before ++ [char b, '/']) more line ended
        rw [List.append_assoc, List.cons_append, List.singleton_append] at hc
        rw [expect?_cons before line ended (d := '/') (by decide) rfl, answer_comment _ _ _ _ hs,
          Option.bind_eq_bind, Option.bind_some]
        dsimp only
        rw [hc]
        rfl
      case neg =>
        rw [if_neg fun hc => hm ((startsComment_iff cs).mp hc).right,
          expect?_of_ne before cs line ended (d := '/') (by decide) rfl hm]
        exact congrArg some <| lexeme_eq_of_symbol before cs line ended h h'
    case isFalse hs =>
      rw [if_neg fun hc => hs <| beq_iff_eq.mpr ((startsComment_iff cs).mp hc).left]
      exact congrArg some <| lexeme_eq_of_symbol before cs line ended h h'
  case h_3 h =>
    have ha := answer_of_stray hn hq hd hl h (encode cs) (behind before line ended)
    rw [cut, if_neg hn, if_neg hq, if_neg hd, if_neg hl] at ha
    rw [ha, ← advance_behind hb]
    rfl

end Forms

end Lox.Scanner
