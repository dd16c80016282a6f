import Lox.Semantics.Execution

namespace Lox

-- The core lemma for `exec_eq_of_le`, from which the body is known to end in the same way with more
-- fuel, if it ends at all. The fuel of the body is left open, since loops within it get all of the
-- fuel and not what is left of the rounds.
theorem repeatWhile_eq_of_le {condition : Expr} {body body' : Machine → Run} {fuel fuel' : Nat}
    (hb : ∀ m, body m ≠ .unfinished → body' m = body m) (hf : fuel ≤ fuel') (m : Machine)
    (h : repeatWhile condition body fuel m ≠ .unfinished) :
    repeatWhile condition body' fuel' m = repeatWhile condition body fuel m := by
  induction fuel generalizing fuel' m
  case zero => exact absurd rfl h
  case succ fuel hi =>
    obtain ⟨fuel', rfl⟩ : ∃ k, fuel' = k + 1 := ⟨fuel' - 1, by omega⟩
    unfold repeatWhile at h ⊢
    generalize m.eval condition = r at h ⊢
    rcases r with ⟨_ | value, m⟩
    case error => rfl
    case ok =>
      dsimp only at h ⊢
      split
      case isFalse => rfl
      case isTrue ht =>
        rw [if_pos ht] at h
        have hm : body m ≠ .unfinished := fun he => h (by rw [he])
        rw [hb m hm]
        cases he : body m
        case done => exact hi (by omega) _ (by simpa [he] using h)
        all_goals rfl

namespace Stmt

mutual

theorem exec_eq_of_le {fuel fuel' : Nat} (hf : fuel ≤ fuel') (stmt : Stmt) (m : Machine)
    (h : stmt.exec fuel m ≠ .unfinished) : stmt.exec fuel' m = stmt.exec fuel m := by
  cases stmt
  case print | expression => simp only [exec]
  case declare name initial => cases initial <;> simp only [exec]
  case block body =>
    simp only [exec] at h ⊢
    rw [execAll_eq_of_le hf body m.enter fun he => h (by rw [he]; rfl)]
  case ifThen condition branch =>
    simp only [exec] at h ⊢
    generalize m.eval condition = r at h ⊢
    rcases r with ⟨_ | value, m⟩
    case error => rfl
    case ok =>
      dsimp only at h ⊢
      split
      case isTrue ht => exact exec_eq_of_le hf branch m (by simpa [ht] using h)
      case isFalse => rfl
  case ifElse condition branch otherwise =>
    simp only [exec] at h ⊢
    generalize m.eval condition = r at h ⊢
    rcases r with ⟨_ | value, m⟩
    case error => rfl
    case ok =>
      dsimp only at h ⊢
      split
      case isTrue ht => exact exec_eq_of_le hf branch m (by simpa [ht] using h)
      case isFalse ht => exact exec_eq_of_le hf otherwise m (by simpa [ht] using h)
  case loop condition body =>
    simp only [exec] at h ⊢
    exact repeatWhile_eq_of_le (fun m hm => exec_eq_of_le hf body m hm) hf m h

theorem execAll_eq_of_le {fuel fuel' : Nat} (hf : fuel ≤ fuel') (stmts : List Stmt) (m : Machine)
    (h : execAll fuel stmts m ≠ .unfinished) : execAll fuel' stmts m = execAll fuel stmts m := by
  cases stmts
  case nil => simp only [execAll]
  case cons stmt stmts =>
    simp only [execAll] at h ⊢
    have hs : stmt.exec fuel m ≠ .unfinished := fun he => h (by rw [he])
    rw [exec_eq_of_le hf stmt m hs]
    cases he : stmt.exec fuel m
    case done m => exact execAll_eq_of_le hf stmts m (by simpa [he] using h)
    all_goals rfl

end

theorem execTop_eq_of_le {fuel fuel' : Nat} (hf : fuel ≤ fuel') (stmt : Stmt) (m : Machine)
    (h : stmt.execTop fuel m ≠ .unfinished) : stmt.execTop fuel' m = stmt.execTop fuel m := by
  cases stmt <;> exact exec_eq_of_le hf _ m h

theorem interpret_eq_of_le {fuel fuel' : Nat} (hf : fuel ≤ fuel') (stmts : List Stmt) (m : Machine)
    (h : interpret fuel stmts m ≠ .unfinished) :
    interpret fuel' stmts m = interpret fuel stmts m := by
  induction stmts generalizing m
  case nil => rfl
  case cons stmt stmts hi =>
    simp only [interpret] at h ⊢
    have hs : stmt.execTop fuel m ≠ .unfinished := fun he => h (by rw [he])
    rw [execTop_eq_of_le hf stmt m hs]
    cases he : stmt.execTop fuel m
    case done m => exact hi m (by simpa [he] using h)
    all_goals rfl

end Stmt
end Lox
