import Mathlib.Data.List.TakeWhile
import Lox.Lexeme.Scan

namespace Lox

def symbols : List (List Char × Token) := [
  (['('], .leftParen), ([')'], .rightParen), (['\x7b'], .leftBrace), (['\x7d'], .rightBrace),
  ([','], .comma), (['.'], .dot), (['-'], .minus), (['+'], .plus), ([';'], .semicolon),
  (['/'], .slash), (['*'], .star), (['!'], .bang), (['!', '='], .bangEqual), (['='], .equal),
  (['=', '='], .equalEqual), (['>'], .greater), (['>', '='], .greaterEqual), (['<'], .less),
  (['<', '='], .lessEqual)]

def reservedWords : List (String × Token) := [
  ("and", .keyword .andWord), ("class", .keyword .classWord), ("else", .keyword .elseWord),
  ("false", .literal (.boolean false)), ("for", .keyword .forWord), ("fun", .keyword .funWord),
  ("if", .keyword .ifWord), ("nil", .literal .nil), ("or", .keyword .orWord),
  ("print", .keyword .printWord), ("return", .keyword .returnWord),
  ("super", .keyword .superWord), ("this", .keyword .thisWord),
  ("true", .literal (.boolean true)), ("var", .keyword .varWord), ("while", .keyword .whileWord)]

def isLetter (c : Char) : Bool :=
  c.isAlpha || c == '_'

def isLetterOrDigit (c : Char) : Bool :=
  c.isAlphanum || c == '_'

def IsDigits (text : List Char) : Prop :=
  text ≠ [] ∧ ∀ c ∈ text, c.isDigit

inductive IsNumeral : List Char → Prop
  | whole (h : IsDigits digits) : IsNumeral digits
  | fraction (hw : IsDigits whole) (hf : IsDigits fraction) : IsNumeral (whole ++ '.' :: fraction)

inductive IsWord : List Char → Prop
  | mk (hc : isLetter c) (hs : ∀ c ∈ cs, isLetterOrDigit c) : IsWord (c :: cs)

theorem isWord_cons_iff {c : Char} {cs : List Char} :
    IsWord (c :: cs) ↔ isLetter c ∧ cs.all isLetterOrDigit where
  mp  := fun | .mk hc hs => ⟨hc, List.all_eq_true.mpr hs⟩
  mpr := fun h => .mk h.left <| List.all_eq_true.mp h.right

instance : (text : List Char) → Decidable (IsWord text)
  | []     => isFalse nofun
  | _ :: _ => decidable_of_iff _ isWord_cons_iff.symm

-- Which texts are lexemes of a token, without regard to how lexemes are found in a source. The
-- number of a text is the one that is read from it, so two texts may spell the same token.
inductive Spells : List Char → Token → Prop
  | symbol (h : symbols.lookup text = some token) : Spells text token
  | string {inner : List Char} (h : '"' ∉ inner) :
    Spells ('"' :: (inner ++ ['"'])) (.literal (.string (String.ofList inner)))
  | number (h : IsNumeral text) (hx : Numeral.read? text = some x) :
    Spells text (.literal (.number x))
  | reserved (h : IsWord text) (hr : reservedWords.lookup (String.ofList text) = some token) :
    Spells text token
  | identifier (h : IsWord text) (hr : reservedWords.lookup (String.ofList text) = none) :
    Spells text (.identifier (String.ofList text))

theorem Token.ofWord_eq (word : String) :
    ofWord word = (reservedWords.lookup word).getD (.identifier word) := by
  unfold ofWord
  split
  case h_17 =>
    have hn : reservedWords.lookup word = none :=
      List.lookup_eq_none_iff.mpr (by simp_all [reservedWords])
    rw [hn, Option.getD_none]
  all_goals rfl

section Characters

variable {c : Char}

theorem isLetter_iff : isLetter c ↔
    'A'.toNat ≤ c.toNat ∧ c.toNat ≤ 'Z'.toNat ∨ 'a'.toNat ≤ c.toNat ∧ c.toNat ≤ 'z'.toNat ∨
      c.toNat = '_'.toNat := by
  have hu : c.isUpper = decide ('A'.toNat ≤ c.toNat ∧ c.toNat ≤ 'Z'.toNat) := rfl
  have hl : c.isLower = (decide ('a'.toNat ≤ c.toNat) && decide (c.toNat ≤ 'z'.toNat)) := rfl
  have ha : isLetter c = ((c.isUpper || c.isLower) || c == '_') := rfl
  rw [ha, hu, hl]
  simp only [Bool.or_eq_true, Bool.and_eq_true, decide_eq_true_eq, beq_iff_eq, Char.toNat_inj,
    or_assoc]

theorem isLetter_of_isDigit (h : c.isDigit) : isLetter c = false := by
  refine Bool.eq_false_iff.mpr fun hl => ?_
  simp only [isLetter_iff, Char.isDigit_iff_toNat, Char.reduceToNat] at h hl
  omega

theorem isLetterOrDigit_iff : isLetterOrDigit c ↔ isLetter c ∨ c.isDigit := by
  simp only [isLetter, isLetterOrDigit, Char.isAlphanum, Bool.or_eq_true]
  exact or_right_comm

theorem lt_of_isLetter (h : isLetter c) : c.toNat < 0x80 := by
  simp only [isLetter_iff, Char.reduceToNat] at h
  omega

theorem lt_of_isDigit (h : c.isDigit) : c.toNat < 0x80 := by
  simp only [Char.isDigit_iff_toNat, Char.reduceToNat] at h
  omega

theorem lt_of_isLetterOrDigit (h : isLetterOrDigit c) : c.toNat < 0x80 :=
  (isLetterOrDigit_iff.mp h).elim lt_of_isLetter lt_of_isDigit

end Characters

open Segment (symbol? symbolEqual?)

theorem symbol?_cases {c : Char} {token : Token} (h : symbol? c = some token) :
    symbols.lookup [c] = some token ∧ c.toNat < 0x80 ∧ c ≠ '"' ∧ c.isDigit = false ∧
      isLetter c = false := by
  unfold symbol? at h
  split at h
  case h_16 => contradiction
  all_goals
    cases h
    exact ⟨rfl, by decide, by decide, rfl, rfl⟩

theorem symbolEqual?_cases {c : Char} {token : Token} (h : symbolEqual? c = some token) :
    symbols.lookup [c, '='] = some token ∧ (symbol? c).isSome := by
  unfold symbolEqual? at h
  split at h
  case h_5 => contradiction
  all_goals
    cases h
    exact ⟨rfl, rfl⟩

theorem takeWhile_append_of_stop {α : Type} {p : α → Bool} {l rest : List α} (hl : ∀ a ∈ l, p a)
    (hr : ∀ a ∈ rest.head?, p a = false) : (l ++ rest).takeWhile p = l := by
  rw [List.takeWhile_append_of_pos hl]
  cases rest
  case nil => exact List.append_nil _
  case cons a rest => rw [List.takeWhile_cons_of_neg (by simp [hr a rfl]), List.append_nil]

theorem stop_dropWhile {α : Type} (p : α → Bool) (l : List α) :
    ∀ a ∈ (l.dropWhile p).head?, p a = false := by
  intro a ha
  have h := List.head?_dropWhile_not p l
  rw [Option.mem_def.mp ha] at h
  exact h

theorem not_mem_takeWhile_bne {α : Type} [BEq α] [LawfulBEq α] (a : α) (l : List α) :
    a ∉ l.takeWhile (· != a) := by
  intro h
  have hp := List.mem_takeWhile_imp h
  rw [bne_self_eq_false] at hp
  exact Bool.false_ne_true hp

theorem mem_of_lookup {α β : Type} [BEq α] [LawfulBEq α] {l : List (α × β)} {a : α} {b : β}
    (h : l.lookup a = some b) : (a, b) ∈ l := by
  have ⟨_, _, he, _⟩ := List.lookup_eq_some_iff.mp h
  exact he ▸ List.mem_append_right _ List.mem_cons_self

theorem lookup_symbols_cases {text : List Char} {token : Token}
    (h : symbols.lookup text = some token) :
    (∃ c, text = [c] ∧ symbol? c = some token) ∨
      ∃ c, text = [c, '='] ∧ symbolEqual? c = some token := by
  have hs : ∀ e ∈ symbols, (∃ c, e.1 = [c] ∧ symbol? c = some e.2) ∨
      ∃ c, e.1 = [c, '='] ∧ symbolEqual? c = some e.2 := by
    simp only [symbols, List.forall_mem_cons, List.not_mem_nil, false_implies, implies_true,
      and_true]
    and_intros
    all_goals first | exact .inl ⟨_, rfl, rfl⟩ | exact .inr ⟨_, rfl, rfl⟩
  exact hs (text, token) <| mem_of_lookup h

theorem IsDigits.exists_cons {text : List Char} (h : IsDigits text) :
    ∃ c cs, text = c :: cs ∧ c.isDigit := by
  have ⟨hn, hd⟩ := h
  cases text
  case nil => contradiction
  case cons c cs => exact ⟨c, cs, rfl, hd c List.mem_cons_self⟩

theorem IsNumeral.exists_cons {text : List Char} (h : IsNumeral text) :
    ∃ c cs, text = c :: cs ∧ c.isDigit := by
  cases h
  case whole h => exact h.exists_cons
  case fraction hw _ =>
    have ⟨c, cs, he, hc⟩ := hw.exists_cons
    exact ⟨c, _, by rw [he]; rfl, hc⟩

theorem IsWord.spells {text : List Char} (h : IsWord text) :
    Spells text (.ofWord (String.ofList text)) := by
  rw [Token.ofWord_eq]
  cases hr : reservedWords.lookup (String.ofList text)
  case none => exact .identifier h hr
  case some => exact .reserved h hr

theorem IsNumeral.all {text : List Char} (h : IsNumeral text) :
    ∀ c ∈ text, c = '.' ∨ c.isDigit := by
  intro c hc
  cases h
  case whole h => exact .inr <| h.right c hc
  case fraction hw hf =>
    rcases List.mem_append.mp hc with hc | hc
    case inl => exact .inr <| hw.right c hc
    case inr => exact (List.mem_cons.mp hc).imp_right <| hf.right c

section Reading

variable {digits whole fraction : List Char}

theorem IsDigits.read? (h : IsDigits digits) :
    Numeral.read? digits = some (Double.nearest (Numeral.ofDigits digits) 1) := by
  have ht : digits.takeWhile Char.isDigit = digits := List.takeWhile_eq_self_iff.mpr h.right
  have hd : digits.dropWhile Char.isDigit = [] := List.dropWhile_eq_nil_iff.mpr h.right
  rw [Numeral.read?, ht, hd]
  exact if_neg <| mt List.isEmpty_iff.mp h.left

theorem IsDigits.read?_fraction (hw : IsDigits whole) (hf : IsDigits fraction) :
    Numeral.read? (whole ++ '.' :: fraction) = some (Double.nearest
      (Numeral.ofDigits (whole ++ fraction)) (Nat.pow 10 fraction.length)) := by
  have hp : ('.' : Char).isDigit = false := rfl
  have ht : (whole ++ '.' :: fraction).takeWhile Char.isDigit = whole := by
    rw [List.takeWhile_append_of_pos hw.right, List.takeWhile_cons_of_neg (by simp [hp]),
      List.append_nil]
  have hd : (whole ++ '.' :: fraction).dropWhile Char.isDigit = '.' :: fraction := by
    rw [List.dropWhile_append_of_pos hw.right, List.dropWhile_cons_of_neg (by simp [hp])]
  rw [Numeral.read?, ht, hd]
  exact if_pos ⟨rfl, hw.left, hf.left, List.all_eq_true.mpr hf.right⟩

theorem IsNumeral.exists_read? {text : List Char} (h : IsNumeral text) :
    ∃ num den, Numeral.read? text = some (Double.nearest num den) := by
  cases h
  case whole h => exact ⟨_, _, h.read?⟩
  case fraction hw hf => exact ⟨_, _, hw.read?_fraction hf⟩

end Reading

theorem IsWord.exists_cons {text : List Char} (h : IsWord text) :
    ∃ c cs, text = c :: cs ∧ isLetter c ∧ ∀ c ∈ cs, isLetterOrDigit c := by
  cases h
  case mk hc hs => exact ⟨_, _, rfl, hc, hs⟩

theorem IsNumeral.isDigit_head {c : Char} {cs : List Char} (h : IsNumeral (c :: cs)) :
    c.isDigit := by
  have ⟨_, _, he, hc⟩ := h.exists_cons
  cases he
  exact hc

theorem IsWord.isLetter_head {c : Char} {cs : List Char} (h : IsWord (c :: cs)) : isLetter c := by
  cases h
  case mk hc _ => exact hc

theorem lookup_symbols_head {c : Char} {cs : List Char} {token : Token}
    (h : symbols.lookup (c :: cs) = some token) : ∃ token', symbol? c = some token' := by
  cases lookup_symbols_cases h
  case inl h =>
    have ⟨_, he, hs⟩ := h
    cases he
    exact ⟨_, hs⟩
  case inr h =>
    have ⟨_, he, hs⟩ := h
    cases he
    exact Option.isSome_iff_exists.mp (symbolEqual?_cases hs).right

namespace Spells

variable {c : Char} {cs : List Char} {token : Token}

theorem string_cases (h : Spells ('"' :: cs) token) :
    ∃ inner, '"' ∉ inner ∧ cs = inner ++ ['"'] ∧
      token = .literal (.string (String.ofList inner)) := by
  cases h
  case symbol h =>
    have ⟨_, hs⟩ := lookup_symbols_head h
    contradiction
  case string inner h => exact ⟨inner, h, rfl, rfl⟩
  case number h _ => exact absurd h.isDigit_head Bool.false_ne_true
  case reserved h _ | identifier h _ => exact absurd h.isLetter_head Bool.false_ne_true

theorem number_cases (h : Spells (c :: cs) token) (hc : c.isDigit) :
    IsNumeral (c :: cs) ∧ ∃ x, Numeral.read? (c :: cs) = some x ∧ token = .literal (.number x) := by
  have hl := isLetter_of_isDigit hc
  cases h
  case symbol h =>
    have ⟨_, hs⟩ := lookup_symbols_head h
    have ⟨_, _, _, hd, _⟩ := symbol?_cases hs
    exact absurd hc <| ne_true_of_eq_false hd
  case string => contradiction
  case number x h hx => exact ⟨h, x, hx, rfl⟩
  case reserved h _ | identifier h _ => exact absurd h.isLetter_head <| ne_true_of_eq_false hl

theorem word_cases (h : Spells (c :: cs) token) (hc : isLetter c) :
    IsWord (c :: cs) ∧ token = .ofWord (String.ofList (c :: cs)) := by
  rw [Token.ofWord_eq]
  cases h
  case symbol h =>
    have ⟨_, hs⟩ := lookup_symbols_head h
    have ⟨_, _, _, _, hl⟩ := symbol?_cases hs
    exact absurd hc <| ne_true_of_eq_false hl
  case string => contradiction
  case number h _ =>
    exact absurd hc <| ne_true_of_eq_false <| isLetter_of_isDigit h.isDigit_head
  case reserved h hr => exact ⟨h, by rw [hr, Option.getD_some]⟩
  case identifier h hr => exact ⟨h, by rw [hr, Option.getD_none]⟩

theorem symbol_cases (h : Spells (c :: cs) token) (hq : c ≠ '"') (hd : c.isDigit = false)
    (hl : isLetter c = false) : symbols.lookup (c :: cs) = some token := by
  cases h
  case symbol h => exact h
  case string => contradiction
  case number h _ => exact absurd h.isDigit_head <| ne_true_of_eq_false hd
  case reserved h _ | identifier h _ => exact absurd h.isLetter_head <| ne_true_of_eq_false hl

theorem exists_cons {text : List Char} (h : Spells text token) :
    ∃ c cs, text = c :: cs ∧ (c = '"' ∨ isLetterOrDigit c ∨ (symbol? c).isSome) := by
  cases h
  case symbol h =>
    cases text
    case nil => rcases lookup_symbols_cases h with ⟨_, he, _⟩ | ⟨_, he, _⟩ <;> contradiction
    case cons =>
      have ⟨_, hs⟩ := lookup_symbols_head h
      exact ⟨_, _, rfl, .inr <| .inr <| by rw [hs]; rfl⟩
  case string => exact ⟨_, _, rfl, .inl rfl⟩
  case number h _ =>
    have ⟨_, _, he, hd⟩ := h.exists_cons
    exact ⟨_, _, he, .inr <| .inl <| isLetterOrDigit_iff.mpr <| .inr hd⟩
  case reserved h _ | identifier h _ =>
    have ⟨_, _, he, hl, _⟩ := h.exists_cons
    exact ⟨_, _, he, .inr <| .inl <| isLetterOrDigit_iff.mpr <| .inl hl⟩

theorem head_lt (h : Spells (c :: cs) token) : c.toNat < 0x80 := by
  have ⟨_, _, he, hc⟩ := h.exists_cons
  cases he
  rcases hc with rfl | hc | hc
  case inl => decide
  case inr.inl => exact lt_of_isLetterOrDigit hc
  case inr.inr =>
    have ⟨_, hs⟩ := Option.isSome_iff_exists.mp hc
    exact (symbol?_cases hs).right.left

theorem head_not_blank (h : Spells (c :: cs) token) : c ∉ [' ', '\t', '\r', '\n'] := by
  have ⟨_, _, he, hc⟩ := h.exists_cons
  cases he
  intro hb
  simp only [List.mem_cons, List.not_mem_nil, or_false] at hb
  rcases hb with rfl | rfl | rfl | rfl <;> rcases hc with hc | hc | hc <;> contradiction

theorem token_ne_eof {text : List Char} (h : Spells text token) : token ≠ .eof := by
  cases h
  case symbol h =>
    have hs : ∀ e ∈ symbols, e.2 ≠ .eof := by decide
    exact hs _ <| mem_of_lookup h
  case reserved hr =>
    have hs : ∀ e ∈ reservedWords, e.2 ≠ .eof := by decide
    exact hs _ <| mem_of_lookup hr
  all_goals nofun

theorem identifier_cases {text : List Char} {name : String} (h : Spells text (.identifier name)) :
    IsWord text ∧ name = String.ofList text := by
  generalize ht : Token.identifier name = token at h
  cases h
  case symbol h =>
    have hm := mem_of_lookup h
    simp [← ht, symbols] at hm
  case string | number => contradiction
  case reserved h =>
    have hm := mem_of_lookup h
    simp [← ht, reservedWords] at hm
  case identifier h _ => exact ⟨h, Token.identifier.inj ht⟩

theorem literal_cases {text : List Char} {value : Value} (h : Spells text (.literal value)) :
    value ∈ [.nil, .boolean false, .boolean true] ∨ (∃ s, value = .string s ∧ '"' ∉ s.toList) ∨
      ∃ x, value = .number x ∧ IsNumeral text ∧ Numeral.read? text = some x := by
  generalize ht : Token.literal value = token at h
  cases h
  case symbol h =>
    have hm := mem_of_lookup h
    simp [← ht, symbols] at hm
  case reserved h =>
    have hm := mem_of_lookup h
    simp only [← ht, reservedWords, List.mem_cons, Prod.mk.injEq, Token.literal.injEq, reduceCtorEq,
      and_false, false_or, or_false, List.not_mem_nil] at hm
    left
    rcases hm with ⟨_, rfl⟩ | ⟨_, rfl⟩ | ⟨_, rfl⟩ <;> simp
  case string inner h =>
    cases ht
    exact .inr <| .inl ⟨_, rfl, by rwa [String.toList_ofList]⟩
  case number h hx =>
    cases ht
    exact .inr <| .inr ⟨_, rfl, h, hx⟩
  case identifier => cases ht

theorem exists_inner {text : List Char} {value : String}
    (h : Spells text (.literal (.string value))) : ∃ inner, text = '"' :: (inner ++ ['"']) := by
  generalize ht : Token.literal (.string value) = token at h
  cases h
  case symbol h | reserved h =>
    have hm := mem_of_lookup h
    simp [← ht, symbols, reservedWords] at hm
  case string inner _ => exact ⟨inner, rfl⟩
  case number | identifier => cases ht

theorem newline_cases {text : List Char} (h : Spells text token) (hn : '\n' ∈ text) :
    ∃ inner, text = '"' :: (inner ++ ['"']) ∧ token = .literal (.string (String.ofList inner)) := by
  have not_mem_of_isWord (hw : IsWord text) : '\n' ∉ text := by
    obtain ⟨c, cs, rfl, hc, hs⟩ := hw.exists_cons
    refine List.not_mem_cons_of_ne_of_not_mem (fun he => ?_) fun hm => ?_
    case refine_1 => exact absurd (he ▸ hc) (by decide)
    case refine_2 => exact absurd (hs _ hm) (by decide)
  cases h
  case symbol h =>
    have hs : ∀ e ∈ symbols, '\n' ∉ e.1 := by decide
    exact absurd hn <| hs _ <| mem_of_lookup h
  case string inner _ => exact ⟨inner, rfl, rfl⟩
  case number h _ =>
    exact absurd (h.all _ hn) (by decide)
  case reserved h _ | identifier h _ => exact absurd hn <| not_mem_of_isWord h

-- A text is that of one token only. The first character tells the kind, and two words are told
-- apart by whether they are reserved.
theorem token_unique {text : List Char} {token' : Token} (h : Spells text token)
    (h' : Spells text token') : token = token' := by
  obtain ⟨c, cs, rfl, _⟩ := h.exists_cons
  by_cases hq : c = '"'
  case pos =>
    subst hq
    have ⟨inner, _, he, ht⟩ := h.string_cases
    have ⟨inner', _, he', ht'⟩ := h'.string_cases
    rw [ht, ht', List.append_cancel_right (he.symm.trans he')]
  case neg =>
    cases hd : c.isDigit
    case true =>
      have ⟨_, x, hx, ht⟩ := h.number_cases hd
      have ⟨_, x', hx', ht'⟩ := h'.number_cases hd
      rw [hx] at hx'
      cases hx'
      rw [ht, ht']
    case false =>
      cases hl : isLetter c
      case true => rw [(h.word_cases hl).right, (h'.word_cases hl).right]
      case false =>
        have hs := h.symbol_cases hq hd hl
        rw [h'.symbol_cases hq hd hl] at hs
        cases hs
        rfl

end Spells
end Lox
