import Lox.Proofs.Syntax.Category

namespace Lox

open List (Forall₂)

namespace Phrase

theorem expectName_of_isName {l : Lexeme} (h : l.IsName) (ls : List Lexeme) :
    expectName (l :: ls) = .done l ls [] := by
  have ⟨name, hn⟩ := h
  rw [expectName, hn]

end Phrase

namespace Expr

def IsRead (c : Category) (e : Expr) : Prop :=
  ∀ (bound : Nat) (used : List Lexeme) (next : Lexeme) (rest : List Lexeme),
    Forall₂ Terminal.Fits e.yield used → used.length + rest.length < bound →
    c.continues next.token = false →
    Phrase.ofCategory bound c (used ++ next :: rest) = .done e (next :: rest) []

def IsLeft (l : Level) (e : Expr) : Prop :=
  ∀ (bound : Nat) (used : List Lexeme) (next : Lexeme) (rest : List Lexeme),
    Forall₂ Terminal.Fits e.yield used → used.length + rest.length < bound →
    l.tighter.continues next.token = false →
    ∃ bound', rest.length < bound' ∧
      Phrase.ofCategory bound (.level l) (used ++ next :: rest) =
        Phrase.chain l (Phrase.ofCategory bound l.tighter) bound' e (next :: rest)

variable {e : Expr}

theorem IsLeft.isRead {l : Level} (h : IsLeft l e) : IsRead (.level l) e := by
  intro bound used next rest hf hb hc
  rw [Category.continues_level, Bool.or_eq_false_iff] at hc
  have ⟨bound', hb', hr⟩ := h _ _ _ _ hf hb hc.right
  cases bound'
  case zero => exact absurd hb' (Nat.not_lt_zero _)
  case succ bound' => rw [hr, Phrase.chain_of_not_has hc.left]

theorem IsRead.isLeft {l : Level} (h : IsRead l.tighter e) : IsLeft l e := by
  intro bound used next rest hf hb hc
  refine ⟨bound, by omega, ?_⟩
  rw [Phrase.ofCategory_level, h _ _ _ _ hf hb hc, Reply.andThen_done]

theorem IsLeft.join {l : Level} {left right : Expr} {operator : Lexeme} (ho : l.has operator.token)
    (hl : IsLeft l left) (hr : IsRead l.tighter right) :
    IsLeft l (l.join left operator right) := by
  intro bound used next rest hf hb hc
  rw [Level.yield_join] at hf
  obtain ⟨used₁, _, rfl, hf₁, hf⟩ := Terminal.forall₂_fits_append hf
  obtain ⟨used₂, rfl, hf₂⟩ := Terminal.forall₂_fits_held hf
  simp only [List.length_append, List.length_cons] at hb
  have ⟨bound', hb', he⟩ := hl bound used₁ operator (used₂ ++ next :: rest) hf₁
    (by simp only [List.length_append, List.length_cons]; omega)
    (Category.continues_tighter_of_has ho)
  simp only [List.length_append, List.length_cons] at hb'
  obtain ⟨bound', rfl⟩ : ∃ k, bound' = k + 1 := ⟨bound' - 1, by omega⟩
  refine ⟨bound', by omega, ?_⟩
  rw [List.append_assoc, List.cons_append, he, Phrase.chain_of_has ho, hr _ _ _ _ hf₂ (by omega) hc,
    Reply.andThen_done]

theorem IsRead.loose (h : IsRead (.level .disjunction) e) : IsRead .assignment e := by
  intro bound used next rest hf hb hc
  rw [Category.continues_assignment, Bool.or_eq_false_iff] at hc
  rw [Phrase.ofCategory_assignment, h _ _ _ _ hf hb hc.right, Reply.andThen_done,
    Phrase.accept?_of_ne (of_decide_eq_false hc.left), Reply.andThen_done]

theorem isRead_literal (value : Value) : IsRead .primary (.literal value) := by
  intro bound used next rest hf _ _
  obtain ⟨l, _, rfl, ht, hf'⟩ := Terminal.forall₂_fits_free hf
  cases hf'
  rw [Phrase.ofCategory, List.singleton_append, Phrase.primary, ht]

theorem isRead_variable {name : Lexeme} (hn : name.IsName) : IsRead .primary (.variable name) := by
  intro bound used next rest hf _ _
  obtain ⟨_, rfl, hf'⟩ := Terminal.forall₂_fits_held hf
  cases hf'
  have ⟨_, ht⟩ := hn
  rw [Phrase.ofCategory, List.singleton_append, Phrase.primary, ht]

theorem IsRead.grouping (h : IsRead .assignment e) : IsRead .primary (.grouping e) := by
  intro bound used next rest hf hb _
  obtain ⟨opening, _, rfl, ho, hf'⟩ := Terminal.forall₂_fits_free hf
  obtain ⟨inner, closing, rfl, hi, hc⟩ := Terminal.forall₂_fits_closed hf'
  simp only [List.length_cons, List.length_append, List.length_nil] at hb
  obtain ⟨bound, rfl⟩ : ∃ k, bound = k + 1 := ⟨bound - 1, by omega⟩
  have he := h bound inner closing (next :: rest) hi (by rw [List.length_cons]; omega)
    (by rw [hc]; rfl)
  rw [Phrase.ofCategory] at he
  rw [Phrase.ofCategory, List.cons_append, Phrase.primary, ho, List.append_assoc,
    List.singleton_append]
  dsimp only
  rw [Phrase.primary.group, Phrase.bind_of_done he,
    Phrase.bind_of_done (Phrase.expect_of_eq hc _ _)]
  rfl

theorem IsRead.single (hd : e.Derives .primary) (h : IsRead .primary e) : IsRead .unary e := by
  intro bound used next rest hf hb hc
  have he := h bound used next rest hf hb hc
  obtain ⟨l, ls, rfl, _, ho⟩ := hd.opens hf
  rw [Phrase.ofCategory, List.cons_append, Phrase.unary,
    if_neg (mt Phrase.isUnaryOperator_iff.mp (ho rfl))]
  exact he

theorem IsRead.unary {operator : Lexeme} (ho : operator.token ∈ [Token.bang, Token.minus])
    (h : IsRead .unary e) : IsRead .unary (.unary operator e) := by
  intro bound used next rest hf hb hc
  obtain ⟨operand, rfl, hf'⟩ := Terminal.forall₂_fits_held hf
  rw [List.length_cons] at hb
  have he := h bound operand next rest hf' (by omega) hc
  rw [Phrase.ofCategory] at he ⊢
  rw [List.cons_append, Phrase.unary, if_pos (Phrase.isUnaryOperator_iff.mpr ho), he,
    Reply.andThen_done]

theorem IsRead.level (l : Level) (h : IsRead l.tighter e) : IsRead (.level l) e :=
  h.isLeft.isRead

theorem isRead_level_variable {name : Lexeme} (hn : name.IsName) :
    IsRead (.level .disjunction) (.variable name) := by
  have h : IsRead .unary (.variable name) := .single (.named hn) (isRead_variable hn)
  have h := IsRead.level .term <| .level .factor h
  have h := IsRead.level .equality <| .level .comparison h
  exact .level .disjunction <| .level .conjunction h

theorem IsRead.assign {name : Lexeme} (hn : name.IsName) (h : IsRead .assignment e) :
    IsRead .assignment (.assign name e) := by
  intro bound used next rest hf hb hc
  obtain ⟨_, rfl, hf'⟩ := Terminal.forall₂_fits_held hf
  obtain ⟨equals, value, rfl, ht, hf'⟩ := Terminal.forall₂_fits_free hf'
  simp only [List.length_cons] at hb
  obtain ⟨bound, rfl⟩ : ∃ k, bound = k + 1 := ⟨bound - 1, by omega⟩
  -- The name is read as an operand first: only the `=` behind it makes it a target.
  have hn := isRead_level_variable hn (bound + 1) [name] equals (value ++ next :: rest)
    (.cons rfl .nil) (by simp only [List.length_append, List.length_cons, List.length_nil]; omega)
    (by rw [ht]; rfl)
  have hv := h bound value next rest hf' (by omega) hc
  rw [Phrase.ofCategory] at hv
  rw [List.singleton_append] at hn
  rw [Phrase.ofCategory_assignment, List.cons_append, List.cons_append, hn, Reply.andThen_done,
    Phrase.accept?_of_eq ht, Reply.andThen_done]
  dsimp only
  rw [hv, Reply.andThen_done]
  rfl

-- A tree is read off its own text wherever the phrase of its category would not go on. A level
-- reads operands from the left, so within it a tree has to be shown to become the left operand of
-- whatever follows, which is the second part.
theorem Derives.isRead {c : Category} (h : e.Derives c) :
    IsRead c e ∧ ∀ l, c = .level l → IsLeft l e := by
  induction h
  case assign hn _ hi => exact ⟨hi.left.assign hn, nofun⟩
  case loose hi => exact ⟨hi.left.loose, nofun⟩
  case logical l _ _ _ ho _ _ hl hr =>
    have h := (hl.right l rfl).join ((l.has_iff _).mpr <| .inl ho) hr.left
    rw [Level.join_eq_logical ho] at h
    exact ⟨h.isRead, fun | _, rfl => h⟩
  case binary l _ _ _ ho _ _ hl hr =>
    have h := (hl.right l rfl).join ((l.has_iff _).mpr <| .inr ho) hr.left
    rw [Level.join_eq_binary ho] at h
    exact ⟨h.isRead, fun | _, rfl => h⟩
  case tight hi => exact ⟨hi.left.isLeft.isRead, fun | _, rfl => hi.left.isLeft⟩
  case unary ho _ hi => exact ⟨hi.left.unary ho, nofun⟩
  case single hd hi => exact ⟨hi.left.single hd, nofun⟩
  case literal value => exact ⟨isRead_literal value, nofun⟩
  case named hn => exact ⟨isRead_variable hn, nofun⟩
  case grouping hi => exact ⟨hi.left.grouping, nofun⟩

end Expr
end Lox
