import Lox.Proofs.Lexing.Composition
import Lox.Tree.Sexp

namespace Lox

inductive Form
  | atom (label : Lexeme)
  | node (head : Lexeme) (parts : List Form)

def opening : Lexeme where
  token   := .leftParen
  content := "("
  line    := 0

def closing : Lexeme where
  token   := .rightParen
  content := ")"
  line    := 0

structure Lexeme.IsLabel (l : Lexeme) : Prop where
  spelled : l.IsSpelled
  line    : l.line = 0

theorem Lexeme.IsLabel.lineless_eq {l : Lexeme} (h : l.IsLabel) : l.lineless = l := by
  obtain ⟨token, content, line⟩ := l
  cases h.line
  rfl

theorem Lexeme.IsSpelled.isLabel_lineless {l : Lexeme} (h : l.IsSpelled) : l.lineless.IsLabel where
  spelled := h
  line    := rfl

namespace Form

mutual

def sexp : Form → String
  | atom l       => l.content
  | node l parts => parenthesize l.content (sexps parts)

def sexps : List Form → List String
  | []      => []
  | f :: fs => f.sexp :: sexps fs

end

mutual

def lexemes : Form → List Lexeme
  | atom l       => [l]
  | node l parts => opening :: l :: (lexemesOf parts ++ [closing])

def lexemesOf : List Form → List Lexeme
  | []      => []
  | f :: fs => f.lexemes ++ lexemesOf fs

end

-- Whether all there is in the form is scanned from its text, and parentheses only around nodes.
-- Then the text of the form is scanned as its lexemes.
inductive Legible : Form → Prop
  | atom (hl : l.IsLabel) (ht : l.token ∉ [Token.leftParen, .rightParen]) : Legible (.atom l)
  | node (hl : l.IsLabel) (hs : ∀ f ∈ parts, Legible f) : Legible (.node l parts)

theorem Legible.single {l : Lexeme} {f : Form} (hl : l.IsLabel) (hf : f.Legible) :
    (Form.node l [f]).Legible :=
  .node hl <| List.forall_mem_singleton.mpr hf

theorem Legible.pair {l : Lexeme} {f g : Form} (hl : l.IsLabel) (hf : f.Legible) (hg : g.Legible) :
    (Form.node l [f, g]).Legible :=
  .node hl <| List.forall_mem_cons.mpr ⟨hf, List.forall_mem_singleton.mpr hg⟩

theorem Legible.exists_cons {f : Form} (h : f.Legible) : ∃ l ls, f.lexemes = l :: ls ∧ l ≠ closing := by
  cases h
  case atom l hl ht =>
    refine ⟨l, [], by rw [lexemes], fun he => ht ?_⟩
    rw [he]
    decide
  case node => exact ⟨opening, _, by rw [lexemes], by decide⟩

mutual

-- No form begins another one. So a form is determined by its lexemes whatever stands behind it, and
-- a list of forms by all of theirs.
theorem Legible.unique {f f' : Form} (h : f.Legible) (h' : f'.Legible) {ls ls' : List Lexeme}
    (he : f.lexemes ++ ls = f'.lexemes ++ ls') : f = f' ∧ ls = ls' := by
  cases h <;> cases h' <;> simp only [lexemes, List.cons_append, List.nil_append, List.append_assoc,
    List.cons.injEq] at he
  case atom.atom => exact ⟨by rw [he.left], he.right⟩
  case atom.node ht _ _ _ _ =>
    rw [he.left] at ht
    exact absurd (by decide) ht
  case node.atom ht =>
    rw [← he.left] at ht
    exact absurd (by decide) ht
  case node.node hs _ _ _ hs' =>
    have ⟨hp, hl⟩ := unique_all hs hs' he.right.right
    exact ⟨by rw [he.right.left, hp], hl⟩

theorem unique_all {fs fs' : List Form} (h : ∀ f ∈ fs, f.Legible) (h' : ∀ f ∈ fs', f.Legible)
    {ls ls' : List Lexeme}
    (he : lexemesOf fs ++ closing :: ls = lexemesOf fs' ++ closing :: ls') : fs = fs' ∧ ls = ls' := by
  cases fs <;> cases fs' <;> simp only [lexemesOf, List.nil_append, List.append_assoc] at he
  case nil.nil => exact ⟨rfl, List.tail_eq_of_cons_eq he⟩
  case nil.cons f fs =>
    have ⟨l, _, hl, hn⟩ := (h' f List.mem_cons_self).exists_cons
    rw [hl] at he
    exact absurd (List.head_eq_of_cons_eq he).symm hn
  case cons.nil f fs =>
    have ⟨l, _, hl, hn⟩ := (h f List.mem_cons_self).exists_cons
    rw [hl] at he
    exact absurd (List.head_eq_of_cons_eq he) hn
  case cons.cons f fs f' fs' =>
    have ⟨hf, h⟩ := List.forall_mem_cons.mp h
    have ⟨hf', h'⟩ := List.forall_mem_cons.mp h'
    have ⟨hf, he⟩ := hf.unique hf' he
    have ⟨hs, hl⟩ := unique_all h h' he
    exact ⟨by rw [hf, hs], hl⟩

end

theorem eq_of_lexemesOf {fs fs' : List Form} (h : ∀ f ∈ fs, f.Legible) (h' : ∀ f ∈ fs', f.Legible)
    (he : lexemesOf fs = lexemesOf fs') : fs = fs' := by
  have he : lexemesOf fs ++ closing :: [] = lexemesOf fs' ++ closing :: [] := by rw [he]
  exact (unique_all h h' he).left

section Text

def tail (parts : List String) (rest : List Char) : List Char :=
  parts.flatMap (fun part => ' ' :: part.toList) ++ ')' :: rest

theorem tail_cons (part : String) (parts : List String) (rest : List Char) :
    tail (part :: parts) rest = ' ' :: (part.toList ++ tail parts rest) := by
  simp [tail]

theorem stops_tail (parts : List String) (rest : List Char) :
    ∀ c ∈ (tail parts rest).head?, c ∈ stops := by
  cases parts
  case nil => exact stops_cons (by decide) rest
  case cons =>
    rw [tail_cons]
    exact stops_cons (by decide) _

theorem toList_intercalate_cons (part : String) (parts : List String) :
    (" ".intercalate (part :: parts)).toList =
      part.toList ++ parts.flatMap (fun part => ' ' :: part.toList) := by
  induction parts generalizing part
  case nil => simp
  case cons part' parts hi =>
    rw [String.intercalate_cons_cons, String.toList_append, hi, List.flatMap_cons]
    simp

theorem toList_parenthesize (head : String) (parts : List String) (rest : List Char) :
    (parenthesize head parts).toList ++ rest = '(' :: (head.toList ++ tail parts rest) := by
  simp only [parenthesize, String.toList_append, toList_intercalate_cons, List.append_assoc]
  rfl

theorem scans_opening {rest : List Char} {ls : List Lexeme} (hr : Scans rest ls) :
    Scans ('(' :: rest) (opening :: ls) :=
  hr.symbol rfl rfl (by decide)

theorem scans_closing {rest : List Char} {ls : List Lexeme} (hr : Scans rest ls) :
    Scans (')' :: rest) (closing :: ls) :=
  hr.symbol rfl rfl (by decide)

mutual

theorem Legible.scans {f : Form} (h : f.Legible) {rest : List Char} {ls : List Lexeme}
    (hr : Scans rest ls) (hc : ∀ c ∈ rest.head?, c ∈ stops) :
    Scans (f.sexp.toList ++ rest) (f.lexemes ++ ls) := by
  cases h
  case atom l hl ht =>
    have h := hr.lexeme hl.spelled hc
    rwa [hl.lineless_eq] at h
  case node l parts hl hs =>
    have h := (scans_tail hs <| scans_closing hr).lexeme hl.spelled (stops_tail _ _)
    rw [hl.lineless_eq] at h
    rw [sexp, toList_parenthesize, lexemes, List.cons_append, List.cons_append, List.append_assoc]
    exact scans_opening h

theorem scans_tail {fs : List Form} (h : ∀ f ∈ fs, f.Legible) {rest : List Char} {ls : List Lexeme}
    (hr : Scans (')' :: rest) ls) : Scans (tail (sexps fs) rest) (lexemesOf fs ++ ls) := by
  cases fs
  case nil => exact hr
  case cons f fs =>
    have ⟨hf, h⟩ := List.forall_mem_cons.mp h
    rw [sexps, tail_cons, lexemesOf, List.append_assoc]
    exact (hf.scans (scans_tail h hr) (stops_tail _ _)).blank (by decide)

end

theorem scans_lines {fs : List Form} (h : ∀ f ∈ fs, f.Legible) :
    Scans ("\n".intercalate (sexps fs)).toList (lexemesOf fs) := by
  induction fs
  case nil => exact .nil
  case cons f fs hi =>
    have ⟨hf, h⟩ := List.forall_mem_cons.mp h
    rcases fs with _ | ⟨f', fs⟩
    case nil =>
      have hs := hf.scans .nil nofun
      rw [List.append_nil] at hs
      simpa only [sexps, lexemesOf, String.intercalate_singleton] using hs
    case cons =>
      have he : ("\n".intercalate (sexps (f :: f' :: fs))).toList =
          f.sexp.toList ++ '\n' :: ("\n".intercalate (sexps (f' :: fs))).toList := by
        simp only [sexps, String.intercalate_cons_cons, String.toList_append, List.append_assoc]
        rfl
      rw [he, lexemesOf]
      refine hf.scans ((hi h).blank (by decide)) fun c hc => ?_
      cases Option.mem_some.mp hc
      decide

end Text
end Form
end Lox
