import Lox.Proofs.Syntax.Category

namespace Lox

def Lexeme.IsEnd (l : Lexeme) : Prop :=
  l.token = .eof

instance : DecidablePred Lexeme.IsEnd :=
  fun l => inferInstanceAs (Decidable (l.token = .eof))

theorem Lexeme.not_isEnd {l : Lexeme} {t : Token} (h : l.token = t) (ht : t ≠ .eof) : ¬l.IsEnd :=
  fun he => ht <| h.symm.trans he

namespace Reply

variable {α β : Type}

abbrev Outcome (α : Type) :=
  α → List Lexeme → List Lexeme → List ParseError → Prop

-- What a reply has to do with the lexemes that were read: those that were used come first and are
-- no end of the file, and what was left follows them. What else is to hold of a value is given, so
-- that phrases are put together by what they use.
inductive Reads (Q : Outcome α) : List Lexeme → Reply α → Prop
  | done {value : α} (used : List Lexeme) {rest : List Lexeme} {errors : List ParseError}
    (hu : ∀ l ∈ used, ¬l.IsEnd) (h : Q value used rest errors) :
    Reads Q (used ++ rest) (done value rest errors)
  | failed (used : List Lexeme) {rest : List Lexeme} {l : Lexeme} {kind : ParseErrorKind}
    {errors : List ParseError} (hu : ∀ l ∈ used, ¬l.IsEnd) :
    Reads Q (used ++ l :: rest) (failed ⟨kind, l⟩ (l :: rest) errors)
  | exhausted {ls : List Lexeme} (h : ∀ l ∈ ls, ¬l.IsEnd) : Reads Q ls exhausted

namespace Reads

variable {P Q : Outcome α} {R : Outcome β} {ls used rest : List Lexeme} {r : Reply α}

theorem still {value : α} (h : Q value [] ls []) : (Reply.done value ls []).Reads Q ls :=
  done [] nofun h

theorem one {value : α} {l : Lexeme} (hl : ¬l.IsEnd) (h : Q value [l] ls []) :
    (Reply.done value ls []).Reads Q (l :: ls) :=
  done [l] (fun _ h => List.mem_singleton.mp h ▸ hl) h

theorem stuck (kind : ParseErrorKind) (l : Lexeme) :
    (Reply.failed ⟨kind, l⟩ (l :: ls) []).Reads Q (l :: ls) :=
  failed [] nofun

theorem imp (h : r.Reads P ls)
    (hi : ∀ value used rest errors, ls = used ++ rest → P value used rest errors →
      Q value used rest errors) : r.Reads Q ls := by
  cases h
  case done hu h => exact .done _ hu (hi _ _ _ _ rfl h)
  case failed hu => exact .failed _ hu
  case exhausted h => exact .exhausted h

theorem after {errors : List ParseError} (hu : ∀ l ∈ used, ¬l.IsEnd)
    (h : r.Reads (fun value used' rest' errors' =>
      Q value (used ++ used') rest' (errors ++ errors')) rest) :
    (r.after errors).Reads Q (used ++ rest) := by
  cases h
  case done used' hu' h =>
    rw [← List.append_assoc]
    exact .done _ (fun l hl => (List.mem_append.mp hl).elim (hu l) (hu' l)) h
  case failed used' hu' =>
    rw [← List.append_assoc]
    exact .failed _ fun l hl => (List.mem_append.mp hl).elim (hu l) (hu' l)
  case exhausted h => exact .exhausted fun l hl => (List.mem_append.mp hl).elim (hu l) (h l)

theorem cons {l : Lexeme} (hl : ¬l.IsEnd)
    (h : r.Reads (fun value used rest errors => Q value (l :: used) rest errors) ls) :
    r.Reads Q (l :: ls) := by
  have hu : ∀ l' ∈ [l], ¬l'.IsEnd := fun _ h => List.mem_singleton.mp h ▸ hl
  exact Reply.after_nil r ▸ after hu h

theorem andThen {next : α → List Lexeme → Reply β} (h : r.Reads P ls)
    (hn : ∀ value used rest errors, ls = used ++ rest → P value used rest errors →
      (next value rest).Reads (fun value' used' rest' errors' =>
        R value' (used ++ used') rest' (errors ++ errors')) rest) :
    (r.andThen next).Reads R ls := by
  cases h
  case done hu h => exact after hu (hn _ _ _ _ rfl h)
  case failed hu => exact .failed _ hu
  case exhausted h => exact .exhausted h

end Reads
end Reply

namespace Phrase

variable {α β : Type} {P : Reply.Outcome α} {Q : Reply.Outcome β} {ls : List Lexeme}

theorem reads_bind {p : Phrase α} {next : α → Phrase β} (h : (p ls).Reads P ls)
    (hn : ∀ value used rest errors, ls = used ++ rest → P value used rest errors →
      (next value rest).Reads (fun value' used' rest' errors' =>
        Q value' (used ++ used') rest' (errors ++ errors')) rest) :
    ((p >>= next) ls).Reads Q ls :=
  h.andThen hn

theorem reads_accept? {t : Token} (ht : t ≠ .eof) (ls : List Lexeme) :
    (accept? t ls).Reads (fun l? used rest errors =>
      errors = [] ∧ match l? with
        | some l => used = [l] ∧ l.token = t
        | none   => used = [] ∧ ∀ l ∈ rest.head?, l.token ≠ t) ls := by
  cases ls
  case nil => exact .exhausted nofun
  case cons l ls =>
    by_cases h : l.token = t
    case pos =>
      rw [accept?, if_pos h]
      exact .one (Lexeme.not_isEnd h ht) ⟨rfl, rfl, h⟩
    case neg =>
      rw [accept?, if_neg h]
      exact .still ⟨rfl, rfl, fun _ hl => Option.mem_some.mp hl ▸ h⟩

theorem reads_expect {t : Token} (ht : t ≠ .eof) {kind : ParseErrorKind} {next : Phrase β}
    (hn : ∀ l rest, ls = l :: rest → l.token = t →
      (next rest).Reads (fun value used rest errors => Q value (l :: used) rest errors) rest) :
    ((do expect t kind; next : Phrase β) ls).Reads Q ls := by
  cases ls
  case nil => exact .exhausted nofun
  case cons l ls =>
    by_cases h : l.token = t
    case pos =>
      rw [bind_of_done (expect_of_eq h _ _)]
      exact .cons (Lexeme.not_isEnd h ht) <| hn l ls rfl h
    case neg =>
      rw [bind_apply, expect, if_neg h]
      exact .stuck kind l

theorem reads_expectName (ls : List Lexeme) :
    (expectName ls).Reads (fun l used _ errors => errors = [] ∧ used = [l] ∧ l.IsName) ls := by
  cases ls
  case nil => exact .exhausted nofun
  case cons l ls =>
    rw [expectName]
    split
    case h_1 name ht => exact .one (Lexeme.not_isEnd ht nofun) ⟨rfl, rfl, name, ht⟩
    case h_2 => exact .stuck _ l

end Phrase
end Lox
