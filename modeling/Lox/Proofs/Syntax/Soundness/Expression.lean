import Lox.Proofs.Syntax.Reading

namespace Lox

open List (Forall₂)

-- The terminals stand for lexemes that were used, in their order, and for all of them if and only
-- if there are no errors. With errors some of the lexemes may have been dropped, as the value of an
-- invalid target is.
def Kept (ts : List Terminal) (used : List Lexeme) (errors : List ParseError) : Prop :=
  ∃ kept, kept.Sublist used ∧ Forall₂ Terminal.Fits ts kept ∧ (errors = [] ↔ kept = used)

namespace Kept

variable {ts ts' : List Terminal} {used used' : List Lexeme} {errors errors' : List ParseError}

theorem nil : Kept [] [] [] :=
  ⟨[], .slnil, .nil, by simp⟩

theorem held (l : Lexeme) : Kept [.held l] [l] [] :=
  ⟨[l], .refl _, .cons rfl .nil, by simp⟩

theorem free {l : Lexeme} {t : Token} (h : l.token = t) : Kept [.free t] [l] [] :=
  ⟨[l], .refl _, .cons h .nil, by simp⟩

theorem append (h : Kept ts used errors) (h' : Kept ts' used' errors') :
    Kept (ts ++ ts') (used ++ used') (errors ++ errors') := by
  have ⟨kept, hs, hf, he⟩ := h
  have ⟨kept', hs', hf', he'⟩ := h'
  refine ⟨kept ++ kept', hs.append hs', List.rel_append hf hf', ?_⟩
  rw [List.append_eq_nil_iff, he, he']
  constructor
  case mp => rintro ⟨rfl, rfl⟩; rfl
  case mpr =>
    -- None of the two parts is longer than what it was taken from.
    intro h
    have hl := congrArg List.length h
    have hl₁ := hs.length_le
    have hl₂ := hs'.length_le
    simp only [List.length_append] at hl
    exact List.append_inj h (by omega)

theorem drop (h : Kept ts used errors) (hu : used' ≠ []) (he : errors' ≠ []) :
    Kept ts (used ++ used') (errors ++ errors') := by
  have ⟨kept, hs, hf, _⟩ := h
  refine ⟨kept, hs.trans <| List.sublist_append_left .., hf, fun h => ?mp, fun h => ?mpr⟩
  case mp => exact absurd (List.append_eq_nil_iff.mp h).right he
  case mpr =>
    have hl := congrArg List.length h
    have hl₁ := hs.length_le
    have hl₂ := List.length_pos_iff.mpr hu
    simp only [List.length_append] at hl
    omega

theorem ne_nil (h : Kept ts used errors) (ht : ts ≠ []) : used ≠ [] := by
  have ⟨kept, hs, hf, _⟩ := h
  intro hu
  subst hu
  cases List.sublist_nil.mp hs
  cases hf
  contradiction

theorem map_token_sublist (h : Kept ts used errors) :
    (ts.map Terminal.token).Sublist (used.map Lexeme.token) := by
  have ⟨kept, hs, hf, _⟩ := h
  rw [← Terminal.map_token_eq_of_fits hf]
  exact hs.map Lexeme.token

theorem map_token_eq_iff (h : Kept ts used errors) :
    ts.map Terminal.token = used.map Lexeme.token ↔ errors = [] := by
  have ⟨kept, hs, hf, he⟩ := h
  rw [he, ← Terminal.map_token_eq_of_fits hf]
  constructor
  case mp =>
    intro hm
    have hl := congrArg List.length hm
    simp only [List.length_map] at hl
    exact hs.eq_of_length hl
  case mpr => exact fun hk => by rw [hk]

end Kept

namespace Expr

def Sound (c : Category) : Reply.Outcome Expr :=
  fun e used _ errors => e.Derives c ∧ Kept e.yield used errors

theorem Derives.join {l : Level} {left right : Expr} {operator : Lexeme}
    (hl : left.Derives (.level l)) (ho : l.has operator.token) (hr : right.Derives l.tighter) :
    (l.join left operator right).Derives (.level l) := by
  rcases (l.has_iff _).mp ho with ho | ho
  case inl => exact Level.join_eq_logical ho .. ▸ .logical ho hl hr
  case inr => exact Level.join_eq_binary ho .. ▸ .binary ho hl hr

theorem Derives.isName {c : Category} {name : Lexeme} (h : (.variable name : Expr).Derives c) :
    name.IsName := by
  generalize he : Expr.variable name = e at h
  induction h
  case loose hi | tight hi | single hi => exact hi he
  case named hn =>
    cases he
    exact hn
  all_goals contradiction

end Expr

namespace Phrase

theorem reads_chain {l : Level} {operand : Phrase Expr} {inner : Nat}
    (ho : ∀ ls, ls.length ≤ inner → (operand ls).Reads (Expr.Sound l.tighter) ls) {bound : Nat}
    {left : Expr} {ls used : List Lexeme} {errors : List ParseError} (hi : ls.length ≤ inner)
    (hb : ls.length ≤ bound) (hl : left.Derives (.level l)) (hk : Kept left.yield used errors) :
    (chain l operand bound left ls).Reads (fun e used' _ errors' =>
      e.Derives (.level l) ∧ Kept e.yield (used ++ used') (errors ++ errors')) ls := by
  induction bound generalizing left ls used errors
  case zero =>
    cases List.length_eq_zero_iff.mp (Nat.le_zero.mp hb)
    exact .exhausted nofun
  case succ bound hi' =>
    cases ls
    case nil => exact .exhausted nofun
    case cons op ls =>
      by_cases h : l.has op.token
      case neg =>
        rw [chain_of_not_has (Bool.eq_false_iff.mpr h)]
        exact .still ⟨hl, by simpa using hk⟩
      case pos =>
        rw [chain_of_has h]
        simp only [List.length_cons] at hi hb
        have hop : ¬op.IsEnd := fun he => by rw [he] at h; cases l <;> contradiction
        refine .cons hop <| (ho ls (by omega)).andThen
          fun right used' rest errors' he ⟨hd, hk'⟩ => ?_
        have hr : rest.length ≤ ls.length := by simp [he]
        have hj := Level.yield_join l left op right ▸ hk.append ((Kept.held op).append hk')
        refine (hi' (by omega) (by omega) (hl.join h hd) hj).imp fun e used'' _ errors'' _ h => ?_
        simpa using h

theorem reads_level {l : Level} {bound : Nat}
    (ht : ∀ ls, ls.length ≤ bound → (ofCategory bound l.tighter ls).Reads (Expr.Sound l.tighter) ls)
    (ls : List Lexeme) (hb : ls.length ≤ bound) :
    (ofCategory bound (.level l) ls).Reads (Expr.Sound (.level l)) ls := by
  rw [ofCategory_level]
  refine (ht ls hb).andThen fun left used rest errors he ⟨hd, hk⟩ => ?_
  have hr : rest.length ≤ bound := by simp [he] at hb; omega
  exact reads_chain ht hr hr (.tight hd) hk

theorem reads_primary {bound : Nat}
    (he : ∀ ls, ls.length < bound → (expression bound ls).Reads (Expr.Sound .assignment) ls)
    (ls : List Lexeme) (hb : ls.length ≤ bound) :
    (primary (expression bound) ls).Reads (Expr.Sound .primary) ls := by
  cases ls
  case nil => exact .exhausted nofun
  case cons l ls =>
    rw [primary]
    split
    case h_1 value ht => exact .one (Lexeme.not_isEnd ht nofun) ⟨.literal value, .free ht⟩
    case h_2 name ht =>
      exact .one (Lexeme.not_isEnd ht nofun) ⟨.named ⟨name, ht⟩, .held l⟩
    case h_3 ht =>
      refine .cons (Lexeme.not_isEnd ht nofun) ?_
      refine reads_bind (he ls hb) fun e used rest errors _ ⟨hd, hk⟩ => ?_
      refine reads_expect (t := .rightParen) nofun fun closing rest _ hc => ?_
      have hy := (Kept.free ht).append <| hk.append <| .free hc
      exact .still ⟨.grouping hd, by simpa [Expr.yield] using hy⟩
    case h_4 => exact .stuck _ l

theorem reads_unary {bound : Nat} {operand : Phrase Expr}
    (ho : ∀ ls, ls.length ≤ bound → (operand ls).Reads (Expr.Sound .primary) ls)
    (ls : List Lexeme) (hb : ls.length ≤ bound) :
    (unary operand ls).Reads (Expr.Sound .unary) ls := by
  induction ls
  case nil => exact .exhausted nofun
  case cons l ls hi =>
    rw [unary]
    split
    case isTrue h =>
      have hu := isUnaryOperator_iff.mp h
      refine .cons (fun he => by rw [he] at hu; contradiction) ?_
      refine (hi (Nat.le_of_succ_le hb)).andThen fun e used rest errors _ ⟨hd, hk⟩ => ?_
      exact .still ⟨.unary hu hd, by simpa [Expr.yield] using (Kept.held l).append hk⟩
    case isFalse => exact (ho _ hb).imp fun _ _ _ _ _ ⟨hd, hk⟩ => ⟨.single hd, hk⟩

theorem reads_disjunction {bound : Nat}
    (he : ∀ ls, ls.length < bound → (expression bound ls).Reads (Expr.Sound .assignment) ls) :
    ∀ ls, ls.length ≤ bound →
      (ofCategory bound (.level .disjunction) ls).Reads (Expr.Sound (.level .disjunction)) ls := by
  have hu := reads_unary (reads_primary he)
  have hc := reads_level (l := .comparison) <| reads_level (l := .term) <|
    reads_level (l := .factor) hu
  exact reads_level (l := .disjunction) <| reads_level (l := .conjunction) <|
    reads_level (l := .equality) hc

theorem reads_assigned {target value : Expr} {equals : Lexeme} {used used' rest : List Lexeme}
    {errors errors' : List ParseError}
    (ht : Expr.Sound (.level .disjunction) target used rest errors)
    (he : equals.token = .equal) (hv : Expr.Sound .assignment value used' rest errors') :
    (assigned target equals value rest).Reads (fun e used'' rest errors'' =>
      Expr.Sound .assignment e (used ++ ([equals] ++ (used' ++ used''))) rest
        (errors ++ ([] ++ (errors' ++ errors'')))) rest := by
  have ⟨hd, hk⟩ := ht
  have ⟨hd', hk'⟩ := hv
  cases target
  case «variable» name =>
    have h := hk.append <| (Kept.free he).append hk'
    exact .still ⟨.assign hd.isName hd', by simpa [Expr.yield] using h⟩
  all_goals exact .done [] nofun ⟨.loose hd, hk.drop (by simp) (by simp)⟩

theorem reads_expression (bound : Nat) (ls : List Lexeme) (hb : ls.length < bound) :
    (expression bound ls).Reads (Expr.Sound .assignment) ls := by
  induction bound generalizing ls
  case zero => exact absurd hb (Nat.not_lt_zero _)
  case succ bound hi =>
    show (ofCategory bound .assignment ls).Reads _ ls
    rw [ofCategory_assignment]
    refine (reads_disjunction hi ls (by omega)).andThen fun target used rest errors he ht => ?_
    refine (reads_accept? (t := .equal) nofun rest).andThen
      fun equals? used' rest' errors' he' h => ?_
    cases equals?
    case none =>
      have ⟨hn, hu, _⟩ := h
      subst hn hu
      exact .still ⟨.loose ht.left, by simpa using ht.right⟩
    case some equals =>
      have ⟨hn, hu, hq⟩ := h
      subst hn hu
      have hr : rest'.length < bound := by
        simp [he, he'] at hb
        omega
      exact (hi rest' hr).andThen fun value used'' rest'' errors'' _ hv =>
        reads_assigned ht hq hv

end Phrase
end Lox
