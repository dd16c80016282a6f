import Lox.Proofs.Syntax.Orderly

namespace Lox

namespace Reply

variable {α : Type}

def rest? : Reply α → Option (List Lexeme)
  | done _ rest _ | failed _ rest _ => some rest
  | exhausted                       => none

def leaving (rest : List Lexeme) : Reply α → Reply α
  | done value _ errors   => done value rest errors
  | failed error _ errors => failed error rest errors
  | exhausted             => exhausted

@[simp]
theorem rest?_after (errors : List ParseError) (r : Reply α) :
    (r.after errors).rest? = r.rest? := by
  cases r <;> rfl

def errors : Reply α → List ParseError
  | done _ _ errors | failed _ _ errors => errors
  | exhausted                           => []

theorem mem_errors_after {e : ParseError} {errors : List ParseError} {r : Reply α}
    (h : e ∈ (r.after errors).errors) : e ∈ errors ∨ e ∈ r.errors := by
  cases r
  case exhausted => contradiction
  all_goals exact List.mem_append.mp h

theorem leaving_after (rest : List Lexeme) (errors : List ParseError) (r : Reply α) :
    (r.after errors).leaving rest = (r.leaving rest).after errors := by
  cases r <;> rfl

end Reply

namespace Phrase

variable {α β : Type}

theorem resume?_append {used rest rest' : List Lexeme} (h : resume? (used ++ rest) = some rest)
    (hr : rest'.head? = rest.head?) : resume? (used ++ rest') = some rest' := by
  induction used
  case nil =>
    obtain ⟨used, hu, _, he⟩ := resume?_eq_some h
    have hn : used = [] := List.self_eq_append_left.mp hu
    cases rest
    case nil => contradiction
    case cons l rest =>
      obtain ⟨rest', rfl⟩ := List.head?_eq_some_iff.mp hr
      -- Where nothing is skipped, recovery has met an end, and it meets the same one here.
      have ht : l.token = .eof := he hn l rfl
      simp only [List.nil_append, resume?, ht]
  case cons l used hi =>
    simp only [List.cons_append, resume?] at h ⊢
    split at h
    case h_1 =>
      have hl := congrArg List.length (Option.some.inj h)
      simp at hl
      omega
    case h_2 => rw [List.self_eq_append_left.mp (Option.some.inj h).symm, List.nil_append]
    case h_3 =>
      cases used
      case nil =>
        cases rest
        case nil => contradiction
        case cons next rest =>
          obtain ⟨rest', rfl⟩ := List.head?_eq_some_iff.mp hr
          simp only [List.nil_append] at h hi ⊢
          split at h
          case isTrue hs => rw [if_pos hs]
          case isFalse hs => rw [if_neg hs, hi h]
      case cons next used =>
        simp only [List.cons_append] at h hi ⊢
        split at h
        case isTrue =>
          have hl := congrArg List.length (Option.some.inj h)
          simp at hl
          omega
        case isFalse hs => rw [if_neg hs, hi h]

-- What is read is decided by the lexemes that are used and by the one behind them: with other
-- lexemes behind those that were used the reply is the same, if the first of them is. Recovery is
-- no exception, although it looks for a place to go on.
def LocalAt (T : Token → Prop) (p : Phrase α) (ls : List Lexeme) : Prop :=
  ∀ rest, (p ls).rest? = some rest → ∃ used, ls = used ++ rest ∧ (∀ l ∈ used, T l.token) ∧
    ∀ rest', rest'.head? = rest.head? → p (used ++ rest') = (p ls).leaving rest'

variable {T : Token → Prop} {p q : Phrase α} {l : Lexeme} {ls : List Lexeme}

theorem exists_eq_cons {used rest rest' : List Lexeme} (h : l :: ls = used ++ rest)
    (hr : rest'.head? = rest.head?) : ∃ ls', used ++ rest' = l :: ls' := by
  cases used
  case nil =>
    rw [← (show l :: ls = rest from h)] at hr
    exact List.head?_eq_some_iff.mp hr
  case cons l' used =>
    cases h
    exact ⟨used ++ rest', rfl⟩

theorem head?_append_congr {rest rest' : List Lexeme} (h : rest'.head? = rest.head?)
    (used : List Lexeme) : (used ++ rest').head? = (used ++ rest).head? := by
  cases used
  case nil => exact h
  case cons => rfl

theorem LocalAt.look (h : ∀ ls, p (l :: ls) = q (l :: ls)) (hq : LocalAt T q (l :: ls)) :
    LocalAt T p (l :: ls) := by
  intro rest hr
  rw [h] at hr ⊢
  obtain ⟨used, hu, hT, hl⟩ := hq rest hr
  refine ⟨used, hu, hT, fun rest' he => ?_⟩
  obtain ⟨ls', hc⟩ := exists_eq_cons hu he
  rw [← hl rest' he, hc, h]

theorem LocalAt.take (ht : T l.token) (h : ∀ ls, p (l :: ls) = q ls) (hq : LocalAt T q ls) :
    LocalAt T p (l :: ls) := by
  intro rest hr
  rw [h] at hr ⊢
  obtain ⟨used, rfl, hT, hl⟩ := hq rest hr
  exact ⟨l :: used, rfl, List.forall_mem_cons.mpr ⟨ht, hT⟩,
    fun rest' he => (h _).trans (hl rest' he)⟩

theorem LocalAt.bind {next : α → Phrase β} (hp : LocalAt T p ls)
    (hn : ∀ value rest errors, p ls = .done value rest errors → LocalAt T (next value) rest) :
    LocalAt T (p >>= next) ls := by
  intro rest hr
  simp only [bind_apply] at hr ⊢
  cases hd : p ls
  case done value rest₁ errors =>
    obtain ⟨used₁, rfl, hT₁, hl₁⟩ := hp rest₁ (by rw [hd]; rfl)
    simp only [hd, Reply.andThen, Reply.rest?_after] at hr hl₁ ⊢
    obtain ⟨used₂, rfl, hT₂, hl₂⟩ := hn value rest₁ errors hd rest hr
    refine ⟨used₁ ++ used₂, (List.append_assoc ..).symm, ?_, fun rest' he => ?_⟩
    case refine_1 => exact fun l hm => (List.mem_append.mp hm).elim (hT₁ l) (hT₂ l)
    case refine_2 =>
      rw [List.append_assoc, hl₁ _ (head?_append_congr he used₂), Reply.leaving,
        Reply.leaving_after, ← hl₂ rest' he]
  case failed error rest₁ errors =>
    obtain ⟨used, rfl, hT, hl⟩ := hp rest₁ (by rw [hd]; rfl)
    rw [hd] at hr
    cases hr
    refine ⟨used, rfl, hT, fun rest' he => ?_⟩
    rw [hl rest' he, hd]
    rfl
  case exhausted =>
    rw [hd] at hr
    contradiction

theorem LocalAt.still {value : α} {errors : List ParseError}
    (h : ∀ ls, p ls = .done value ls errors) : LocalAt T p ls := by
  intro rest hr
  rw [h] at hr ⊢
  cases hr
  exact ⟨[], rfl, nofun, fun rest' _ => h rest'⟩

theorem LocalAt.recovered (hT : ∀ t, t ≠ .eof → T t) (hp : LocalAt T p ls) :
    LocalAt T (recovered p) ls := by
  intro rest hr
  simp only [Phrase.recovered] at hr ⊢
  cases hd : p ls
  case done value rest₁ errors =>
    rw [hd] at hr
    cases hr
    obtain ⟨used, rfl, hu, hl⟩ := hp rest (by rw [hd]; rfl)
    refine ⟨used, rfl, hu, fun rest' he => ?_⟩
    simp only [hl rest' he, hd, Reply.leaving]
  case failed error rest₁ errors =>
    obtain ⟨used, rfl, hu, hl⟩ := hp rest₁ (by rw [hd]; rfl)
    cases hs : resume? rest₁
    case none =>
      simp only [hd, hs] at hr
      contradiction
    case some rest₂ =>
      simp only [hd, hs] at hr ⊢
      cases hr
      obtain ⟨skipped, rfl, hn, _⟩ := resume?_eq_some hs
      refine ⟨used ++ skipped, (List.append_assoc ..).symm, ?_, fun rest' he => ?_⟩
      case refine_1 =>
        exact fun l hm => (List.mem_append.mp hm).elim (hu l) fun hm => hT _ (hn l hm)
      case refine_2 =>
        simp only [List.append_assoc, hl _ (head?_append_congr he skipped), hd, Reply.leaving,
          resume?_append hs he]
  case exhausted =>
    rw [hd] at hr
    contradiction

theorem Orderly.localAt (h : Orderly T p ls) : LocalAt T p ls := by
  induction h
  case exhausted h => exact fun rest hr => by rw [h] at hr; contradiction
  case done h => exact .still h
  case stuck h _ _ =>
    intro rest hr
    rw [h] at hr ⊢
    cases hr
    refine ⟨[], rfl, nofun, fun rest' he => ?_⟩
    obtain ⟨ls', rfl⟩ := List.head?_eq_some_iff.mp he
    exact h ls'
  case look h _ hi => exact hi.look h
  case take ht h _ hi => exact hi.take ht h
  case bind hi hi' => exact hi.bind hi'
  case note q value l ls ht _ h _ hi =>
    refine .take (q := q >>= fun _ ls => .done value ls [⟨.invalidAssignmentTarget, l⟩]) ht h ?_
    exact hi.bind fun _ _ _ _ => .still fun _ => rfl
  case recovered hT _ hi => exact hi.recovered hT

theorem Orderly.failed (h : Orderly T p ls) {error : ParseError} {rest : List Lexeme}
    {errors : List ParseError} (hf : p ls = .failed error rest errors) :
    rest.head? = some error.lexeme ∧ error.kind ≠ .invalidAssignmentTarget ∧
      (error.kind = .expectedRightBraceAfterBlock → error.lexeme.IsEnd) := by
  induction h generalizing error rest errors
  case exhausted h | done h =>
    rw [h] at hf
    contradiction
  case stuck h hi hb =>
    rw [h] at hf
    cases hf
    exact ⟨rfl, hi, hb⟩
  case look h _ hi | take h _ hi => exact hi (h _ ▸ hf)
  case bind p next ls _ _ hi hi' =>
    rw [bind_apply] at hf
    cases hd : p ls
    case done value rest₁ errors₁ =>
      cases hd' : next value rest₁
      case failed =>
        simp only [hd, Reply.andThen, hd', Reply.after] at hf
        cases hf
        exact hi' _ _ _ hd hd'
      all_goals
        simp only [hd, Reply.andThen, hd', Reply.after] at hf
        contradiction
    case failed =>
      rw [hd] at hf
      cases hf
      exact hi hd
    case exhausted =>
      rw [hd] at hf
      contradiction
  case note q _ _ ls _ _ h _ hi =>
    rw [h] at hf
    cases hd : q ls
    case failed =>
      rw [hd] at hf
      cases hf
      exact hi hd
    all_goals
      rw [hd] at hf
      contradiction
  case recovered => exact absurd hf <| recovered_ne_failed _ _ _ _ _

theorem Orderly.kind_of_noted (h : Orderly T p ls) (hT : ¬T .semicolon) {e : ParseError}
    (he : e ∈ (p ls).errors) : e.kind = .invalidAssignmentTarget := by
  induction h
  case exhausted h | done h | stuck h _ _ =>
    rw [h] at he
    contradiction
  case look h _ hi | take h _ hi => exact hi (h _ ▸ he)
  case bind p next ls _ _ hi hi' =>
    rw [bind_apply] at he
    cases hd : p ls
    case done value rest errors =>
      rw [hd] at he hi
      exact (Reply.mem_errors_after he).elim hi (hi' _ _ _ hd)
    case failed =>
      rw [hd] at he hi
      exact hi he
    case exhausted =>
      rw [hd] at he
      contradiction
  case note q _ _ ls _ _ h _ hi =>
    rw [h] at he
    cases hd : q ls
    case done =>
      rw [hd] at he hi
      obtain he | he := List.mem_append.mp he
      case inl => exact hi he
      case inr => exact List.mem_singleton.mp he ▸ rfl
    case failed =>
      rw [hd] at he hi
      exact hi he
    case exhausted =>
      rw [hd] at he
      contradiction
  case recovered hT' _ _ => exact absurd (hT' .semicolon nofun) hT

end Phrase
end Lox
