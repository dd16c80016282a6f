import Lox.Proofs.Syntax.Unbounded

namespace Lox

variable {before after ls : List Lexeme} {eof : Lexeme}

theorem append_end_inj {before' after' : List Lexeme} {eof' : Lexeme} (hb : ∀ l ∈ before, ¬l.IsEnd)
    (he : eof.IsEnd) (hb' : ∀ l ∈ before', ¬l.IsEnd) (he' : eof'.IsEnd)
    (h : before ++ eof :: after = before' ++ eof' :: after') :
    before = before' ∧ eof :: after = eof' :: after' := by
  induction before generalizing before'
  case nil =>
    cases before'
    case nil => exact ⟨rfl, h⟩
    case cons l before' =>
      cases h
      exact absurd he <| hb' eof List.mem_cons_self
  case cons l before hi =>
    cases before'
    case nil =>
      cases h
      exact absurd he' <| hb eof' List.mem_cons_self
    case cons l' before' =>
      obtain ⟨hl, h⟩ := List.cons_eq_cons.mp h
      have h := hi (List.forall_mem_cons.mp hb).right (List.forall_mem_cons.mp hb').right h
      exact ⟨by rw [hl, h.left], h.right⟩

namespace Phrase

theorem exists_program (hb : ∀ l ∈ before, ¬l.IsEnd) (he : eof.IsEnd) (after : List Lexeme) :
    ∃ stmts errors, Unbounded.declarations closesProgram (before ++ eof :: after) =
      .done stmts (eof :: after) errors := by
  have h := reads_program _ (before ++ eof :: after) (Nat.lt_succ_self _)
  rw [program_eq (Nat.lt_succ_self _)] at h
  generalize hl : before ++ eof :: after = ls at h
  generalize hr : Unbounded.declarations closesProgram ls = r at h
  cases h
  case done stmts used rest errors hu h =>
    obtain ⟨_, _, eof', after', rfl, hc⟩ := h
    have ha := append_end_inj hb he hu (of_decide_eq_true hc) hl
    exact ⟨stmts, errors, by rw [ha.right]⟩
  case failed => exact absurd hr <| declarations_ne_failed _ _ _ _ _ _ _
  case exhausted hn => exact absurd he <| hn eof <| hl ▸ List.mem_append_right _ List.mem_cons_self

end Phrase

theorem parse?_eq_none_iff : parse? ls = none ↔ ∀ l ∈ ls, ¬l.IsEnd := by
  cases parse?_cases ls
  case inl h => exact ⟨fun _ => h.right, fun _ => h.left⟩
  case inr h =>
    obtain ⟨parsed, used, eof, rest, hp, rfl, _, he, _⟩ := h
    constructor
    case mp =>
      intro hn
      rw [hp] at hn
      contradiction
    case mpr => exact fun hn => absurd he <| hn eof <| List.mem_append_right _ List.mem_cons_self

theorem Phrase.program_eq_exhausted_iff :
    Unbounded.declarations closesProgram ls = .exhausted ↔ ∀ l ∈ ls, ¬l.IsEnd := by
  rw [← parse?_eq_none_iff, parse?, program_eq (Nat.lt_succ_self _)]
  cases hr : Unbounded.declarations closesProgram ls
  case done => simp
  case failed => exact absurd hr <| declarations_ne_failed _ _ _ _ _ _ _
  case exhausted => exact ⟨fun _ => rfl, fun _ => rfl⟩

theorem parse?_append_eof (hb : ∀ l ∈ before, ¬l.IsEnd) (he : eof.IsEnd) (after : List Lexeme) :
    parse? (before ++ eof :: after) = parse? (before ++ [eof]) := by
  obtain ⟨stmts, errors, hd⟩ := Phrase.exists_program hb he after
  have hl : Phrase.LocalAt (· ≠ .eof) (Phrase.Unbounded.declarations Phrase.closesProgram)
    (before ++ eof :: after) := Phrase.Unbounded.localAt_declarations rfl _
  obtain ⟨used, hu, hn, hl⟩ := hl (eof :: after) (by rw [hd]; rfl)
  obtain rfl := List.append_cancel_right hu
  rw [parse?, parse?, Phrase.program_eq (Nat.lt_succ_self _),
    Phrase.program_eq (Nat.lt_succ_self _), hl [eof] rfl, hd]
  rfl

-- Nothing is ever done at the bound, so there is no need for one. The rounds are those of a program
-- and of the blocks within it, which differ in their bounds only, and pass what they fail at.
theorem program_terminates (ls : List Lexeme) :
    (∀ bound, Limit.none.program bound = Phrase.program bound) ∧
    (∀ (limit : Limit) (bound : Nat), ls.length < bound →
      limit.program bound ls = Phrase.program (ls.length + 1) ls ∧
      (limit.program bound ls = .exhausted ↔ ∀ l ∈ ls, ¬l.IsEnd)) ∧
    (parse? ls = none ↔ ∀ l ∈ ls, ¬l.IsEnd) ∧
    (∀ before eof after, ls = before ++ eof :: after → (∀ l ∈ before, ¬l.IsEnd) → eof.IsEnd →
      parse? ls = parse? (before ++ [eof]) ∧
      ∃ stmts errors, Phrase.program (ls.length + 1) ls = .done stmts (eof :: after) errors) ∧
    ∀ bound stmt? rest errors, (∃ l ∈ ls.head?, ¬l.IsEnd) →
      Phrase.recovered (.declaration (.expression bound) (.statement bound)) ls =
        .done stmt? rest errors →
      ∃ used, ls = used ++ rest ∧ used ≠ [] ∧ ∀ l ∈ used, ¬l.IsEnd := by
  have hb := Nat.lt_succ_self ls.length
  refine ⟨Limit.none_program, fun limit bound hl => ?limit, parse?_eq_none_iff, ?ends, ?round⟩
  case limit =>
    rw [limit.program_eq hl hb, Phrase.program_eq hb]
    exact ⟨rfl, Phrase.program_eq_exhausted_iff⟩
  case ends =>
    rintro before eof after rfl hn he
    rw [Phrase.program_eq hb]
    exact ⟨parse?_append_eof hn he after, Phrase.exists_program hn he after⟩
  case round =>
    rintro bound stmt? rest errors ⟨l, hl, hn⟩ hr
    obtain ⟨ls', rfl⟩ := List.head?_eq_some_iff.mp hl
    exact Phrase.exists_used_of_recovered hn hr

end Lox
