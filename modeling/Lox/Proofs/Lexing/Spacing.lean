import Lox.Proofs.Lexing.Composition

namespace Lox

inductive IsGap : List Char → Prop
  | nil : IsGap []
  | blank (hb : c ∈ [' ', '\t', '\r', '\n']) (h : IsGap gap) : IsGap (c :: gap)
  | comment (hn : '\n' ∉ text) (h : IsGap gap) : IsGap ('/' :: '/' :: (text ++ '\n' :: gap))

inductive IsSeparator : List Char → Prop
  | mk (hb : c ∈ [' ', '\t', '\r', '\n']) (h : IsGap gap) : IsSeparator (c :: gap)

variable {cs rest : List Char} {ls : List Lexeme}

theorem Scans.gap (hr : Scans rest ls) (hg : IsGap cs) : Scans (cs ++ rest) ls := by
  induction hg
  case nil => exact hr
  case blank hb _ hi => exact hi.blank hb
  case comment text gap hn _ hi =>
    have hi := (hi.blank (c := '\n') (by decide)).comment hn
    rwa [List.cons_append, List.cons_append, List.append_assoc]

theorem IsSeparator.isGap (h : IsSeparator cs) : IsGap cs := by
  cases h
  case mk hb hg => exact .blank hb hg

theorem IsSeparator.stops (h : IsSeparator cs) : ∀ c ∈ (cs ++ rest).head?, c ∈ stops := by
  cases h
  case mk hb _ => exact stops_cons (List.mem_append_left [')', ';'] hb) _

def spaced (ls : List Lexeme) (separators : List String) : String :=
  String.join <| List.zipWith (fun l separator => l.content ++ separator) ls separators

theorem scans_spaced {separators : List String} (hs : ∀ l ∈ ls, l.IsSpelled)
    (hl : separators.length = ls.length) (hw : ∀ s ∈ separators, IsSeparator s.toList) :
    Scans (spaced ls separators).toList (ls.map Lexeme.lineless) := by
  induction ls generalizing separators
  case nil => exact .nil
  case cons l ls hi =>
    cases separators
    case nil => contradiction
    case cons s separators =>
      have ⟨hl', hs⟩ := List.forall_mem_cons.mp hs
      have ⟨hsep, hw⟩ := List.forall_mem_cons.mp hw
      have he : (spaced (l :: ls) (s :: separators)).toList =
          l.content.toList ++ (s.toList ++ (spaced ls separators).toList) := by
        simp [spaced]
      rw [he]
      exact ((hi hs (Nat.succ.inj hl) hw).gap hsep.isGap).lexeme hl' hsep.stops

namespace Scan

-- However the lexemes of a source are set apart from one another, by blanks and comments, they are
-- scanned again, and no error is. That holds also of sources in which there were errors between
-- them, or nothing at all.
theorem ofSource_spaced {source : String} {separators : List String}
    (hl : separators.length = (ofSource source).visible.length)
    (hw : ∀ s ∈ separators, IsSeparator s.toList) :
    (ofSource (spaced (ofSource source).visible separators)).errors = [] ∧
      (ofSource (spaced (ofSource source).visible separators)).lexemes.map Lexeme.lineless =
        (ofSource source).visible.map Lexeme.lineless ++ [⟨.eof, "", 0⟩] := by
  rw [visible_ofSource] at hl ⊢
  exact (scans_spaced (fun _ => isSpelled_of_mem_lexemesBefore) hl hw).ofSource

theorem ofSource_spaced_of_errors :
    let source := "7.x=#=/@/\"//\n\""
    let comment := " // = \n"
    let separators := [" ", "\n", "\t", comment, "\r\n", comment, " ", comment]
    let ls := (ofSource source).visible
    (ofSource source).errors.length = 2 ∧
      ls.map (·.content) = ["7", ".", "x", "=", "=", "/", "/", "\"//\n\""] ∧
      spaced ls separators = "7 .\nx\t= // = \n=\r\n/ // = \n/ \"//\n\" // = \n" ∧
      (ofSource (spaced ls separators)).errors = [] ∧
      (ofSource (spaced ls separators)).lexemes.map Lexeme.lineless =
        ls.map Lexeme.lineless ++ [⟨.eof, "", 0⟩] := by
  intro source comment separators ls
  have hb {c : Char} (hb : c ∈ [' ', '\t', '\r', '\n']) : IsSeparator [c] := .mk hb .nil
  have hc : IsSeparator comment.toList := by
    have he : comment.toList = ' ' :: '/' :: '/' :: ([' ', '=', ' '] ++ ['\n']) := by
      simp [comment]
    rw [he]
    exact .mk (by decide) (.comment (by decide) .nil)
  have hw : ∀ s ∈ separators, IsSeparator s.toList := by
    simp only [separators, List.forall_mem_cons, List.not_mem_nil, false_implies, implies_true,
      and_true]
    exact ⟨hb (by decide), hb (by decide), hb (by decide), hc,
      .mk (by decide) (.blank (by decide) .nil), hc, hb (by decide), hc⟩
  exact ⟨by decide +kernel, by decide +kernel, by decide +kernel,
    ofSource_spaced (by decide +kernel) hw⟩

end Scan
end Lox
