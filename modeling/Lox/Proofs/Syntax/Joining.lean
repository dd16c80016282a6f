import Lox.Proofs.Syntax.Completeness.Program
import Lox.Proofs.Syntax.Mapping
import Lox.Proofs.Syntax.Soundness.Program

namespace Lox

open List (Forall₂)

variable {ls ls' : List Lexeme} {eof eof' : Lexeme} {parsed parsed' : Parsed}

theorem fits_of_no_errors (h : parse? (ls ++ [eof]) = some parsed) (hl : ∀ l ∈ ls, ¬l.IsEnd)
    (he : eof.IsEnd) (hn : parsed.errors = []) :
    (∀ stmt ∈ parsed.statements, stmt.WellFormed) ∧
      Forall₂ Terminal.Fits (Stmt.yields parsed.statements) ls := by
  cases parse?_cases (ls ++ [eof])
  case inl hc => exact absurd he <| hc.right eof (by simp)
  case inr hc =>
    have ⟨parsed', used, eof', rest, hp, hu, _, he', hw, kept, _, hf, hk⟩ := hc
    cases hp.symm.trans h
    exact ⟨hw, eq_of_append_end hl he' hu ▸ hk.mp hn ▸ hf⟩

-- Programs one after another are one program. Neither list can make an error in the other, as the
-- second does not begin with an else, which no program does.
theorem parse?_join (h : parse? (ls ++ [eof]) = some parsed) (hl : ∀ l ∈ ls, ¬l.IsEnd)
    (he : eof.IsEnd) (hn : parsed.errors = []) (h' : parse? (ls' ++ [eof']) = some parsed')
    (hl' : ∀ l ∈ ls', ¬l.IsEnd) (he' : eof'.IsEnd) (hn' : parsed'.errors = [])
    {f : Lexeme → Lexeme} (hf : ∀ l, (f l).token = l.token) :
    parse? (ls ++ (ls' ++ [eof']).map f) =
      some { statements := parsed.statements ++ parsed'.statements.map (Stmt.map f), errors := [] } := by
  have ⟨hw, hy⟩ := fits_of_no_errors h hl he hn
  have ⟨hw', hy'⟩ := fits_of_no_errors h' hl' he' hn'
  have hw'' : ∀ stmt ∈ parsed.statements ++ parsed'.statements.map (Stmt.map f), stmt.WellFormed :=
    List.forall_mem_append.mpr ⟨hw, List.forall_mem_map.mpr fun stmt hs => (hw' stmt hs).map hf⟩
  have hy'' : Forall₂ Terminal.Fits
      (Stmt.yields (parsed.statements ++ parsed'.statements.map (Stmt.map f))) (ls ++ ls'.map f) := by
    simp only [Stmt.yields_append, ← Stmt.mapAll_eq_map, Stmt.yields_mapAll]
    exact List.rel_append hy <| Terminal.forall₂_fits_map hf hy'
  have ht : (f eof').token = .eof := (hf eof').trans he'
  have hb : (ls ++ ls'.map f).length + ([] : List Lexeme).length + 1 <
      (ls ++ (ls' ++ [eof']).map f).length + 1 := by
    simp
  have hd := Stmt.declarations_eq Phrase.closesProgram (fun t _ => by cases t <;> trivial) _ _
    (by rw [ht]; rfl) (by rw [ht]; nofun) [] hw'' (fun stmt hs => (hw'' stmt hs).isRead) hy'' hb hb
  have hs : ls ++ (ls' ++ [eof']).map f = ls ++ ls'.map f ++ [f eof'] := by simp
  simp only [parse?, Phrase.program, hs]
  simp only [hs] at hd
  simp only [hd]

end Lox
