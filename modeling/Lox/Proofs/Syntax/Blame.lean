import Lox.Proofs.Session.Places
import Lox.Proofs.Syntax.Termination
import Mathlib.Data.List.Perm.Subperm

namespace Lox

-- The errors that were noted while the lexemes were used. Errors about targets are noted when the
-- value behind them has been read, so their order is not the order of the lexemes. All others come
-- in this order, those at the end last.
structure Blamed (used rest : List Lexeme) (errors : List ParseError) : Prop where
  targets : ∀ e ∈ errors, e.kind = .invalidAssignmentTarget → e.lexeme.token = .equal
  braces  : ∀ e ∈ errors, e.kind = .expectedRightBraceAfterBlock → e.lexeme.IsEnd
  once    : ((errors.filter (¬·.lexeme.IsEnd)).map (·.lexeme)).Subperm used
  ordered : ∃ early late, errors.filter (·.kind ≠ .invalidAssignmentTarget) = early ++ late ∧
    (early.map (·.lexeme)).Sublist used ∧
    ∀ e ∈ late, e.lexeme.IsEnd ∧ rest.head? = some e.lexeme

namespace Blamed

variable {used used' rest : List Lexeme} {errors errors' : List ParseError} {l : Lexeme}

theorem nil (used rest : List Lexeme) : Blamed used rest [] :=
  ⟨List.forall_mem_nil _, List.forall_mem_nil _, List.nil_subperm, [], [], rfl,
    List.nil_sublist used, List.forall_mem_nil _⟩

theorem append (h : Blamed used (used' ++ rest) errors) (hu : ∀ l ∈ used', ¬l.IsEnd)
    (h' : Blamed used' rest errors') : Blamed (used ++ used') rest (errors ++ errors') where
  targets := List.forall_mem_append.mpr ⟨h.targets, h'.targets⟩
  braces  := List.forall_mem_append.mpr ⟨h.braces, h'.braces⟩
  once    := by
    rw [List.filter_append, List.map_append]
    exact h.once.append h'.once
  ordered := by
    obtain ⟨early, late, he, hs, hl⟩ := h.ordered
    obtain ⟨early', late', he', hs', hl'⟩ := h'.ordered
    rw [List.filter_append, he, he']
    cases late
    case nil =>
      refine ⟨early ++ early', late', by simp, ?_, hl'⟩
      rw [List.map_append]
      exact hs.append hs'
    case cons e late =>
      have ⟨hn, hh⟩ := hl e List.mem_cons_self
      cases used'
      case cons l used' =>
        cases hh
        exact absurd hn <| hu e.lexeme List.mem_cons_self
      case nil =>
        -- An error at the end stands behind all lexemes, so nothing more is used, and what is
        -- reported after it cannot be early.
        have hn : early' = [] := List.map_eq_nil_iff.mp <| List.sublist_nil.mp hs'
        refine ⟨early, e :: late ++ late', by simp [hn], by simpa using hs, ?_⟩
        exact List.forall_mem_append.mpr ⟨hl, hl'⟩

theorem note (h : Blamed used rest errors) (ht : l.token = .equal) :
    Blamed (l :: used) rest (errors ++ [⟨.invalidAssignmentTarget, l⟩]) where
  targets := List.forall_mem_append.mpr
    ⟨h.targets, fun _ he _ => List.mem_singleton.mp he ▸ ht⟩
  braces  := by
    refine List.forall_mem_append.mpr ⟨h.braces, fun _ he hk => ?_⟩
    cases List.mem_singleton.mp he
    contradiction
  once    := by
    have hl : ¬l.IsEnd := Lexeme.not_isEnd ht nofun
    have hp := (List.perm_append_singleton l used).subperm
    simpa [hl] using (h.once.append (List.Subperm.refl [l])).trans hp
  ordered := by
    obtain ⟨early, late, he, hs, hl⟩ := h.ordered
    exact ⟨early, late, by simpa using he, hs.cons l, hl⟩

theorem failed {error : ParseError} (hh : (used ++ rest).head? = some error.lexeme)
    (hi : error.kind ≠ .invalidAssignmentTarget)
    (hb : error.kind = .expectedRightBraceAfterBlock → error.lexeme.IsEnd)
    (hu : ∀ l ∈ used, ¬l.IsEnd) (hn : used = [] → error.lexeme.IsEnd) :
    Blamed used rest [error] where
  targets := fun _ he hk => absurd (List.mem_singleton.mp he ▸ hk) hi
  braces  := fun _ he hk => by
    cases List.mem_singleton.mp he
    exact hb hk
  once    := by
    cases used
    case nil => simp [hn rfl]
    case cons l used =>
      cases hh
      have hl := hu _ List.mem_cons_self
      simp [hl]
  ordered := by
    cases used
    case nil =>
      refine ⟨[], [error], by simp [hi], .slnil, fun _ he => ?_⟩
      cases List.mem_singleton.mp he
      exact ⟨hn rfl, hh⟩
    case cons l used =>
      cases hh
      exact ⟨[error], [], by simp [hi], by simp, List.forall_mem_nil _⟩

end Blamed

namespace Phrase

variable {α β : Type} {p : Phrase α} {ls : List Lexeme}

def Blames (p : Phrase α) (ls : List Lexeme) : Prop :=
  ∀ rest, (p ls).rest? = some rest → ∃ used, ls = used ++ rest ∧ (∀ l ∈ used, ¬l.IsEnd) ∧
    Blamed used rest (p ls).errors

theorem Blames.bind {next : α → Phrase β} (hp : p.Blames ls)
    (hn : ∀ value rest errors, p ls = .done value rest errors → (next value).Blames rest) :
    (p >>= next).Blames ls := by
  intro rest hr
  simp only [bind_apply] at hr ⊢
  cases hd : p ls
  case done value rest₁ errors =>
    obtain ⟨used₁, rfl, hu₁, hb₁⟩ := hp rest₁ (by rw [hd]; rfl)
    simp only [hd, Reply.andThen, Reply.rest?_after] at hr hb₁ ⊢
    obtain ⟨used₂, rfl, hu₂, hb₂⟩ := hn value rest₁ errors hd rest hr
    refine ⟨used₁ ++ used₂, (List.append_assoc ..).symm, List.forall_mem_append.mpr ⟨hu₁, hu₂⟩, ?_⟩
    cases hd' : next value (used₂ ++ rest)
    case exhausted =>
      rw [hd'] at hr
      contradiction
    all_goals
      rw [hd'] at hb₂
      exact hb₁.append hu₂ hb₂
  case failed error rest₁ errors =>
    have h := hp rest₁ (by rw [hd]; rfl)
    rw [hd] at hr h
    cases hr
    exact h
  case exhausted =>
    rw [hd] at hr
    contradiction

theorem Orderly.blames (h : Orderly (· ≠ .eof) p ls) : p.Blames ls := by
  induction h
  case exhausted h =>
    intro rest hr
    rw [h] at hr
    contradiction
  case done h | stuck h _ _ =>
    intro rest hr
    rw [h] at hr ⊢
    cases hr
    exact ⟨[], rfl, List.forall_mem_nil _, .nil [] _⟩
  case look h _ hi =>
    intro rest hr
    rw [h] at hr ⊢
    exact hi rest hr
  case take hl h _ hi =>
    intro rest hr
    rw [h] at hr ⊢
    obtain ⟨used, rfl, hu, hb⟩ := hi rest hr
    exact ⟨_ :: used, rfl, List.forall_mem_cons.mpr ⟨hl, hu⟩, (Blamed.nil [_] _).append hu hb⟩
  case bind hi hi' => exact hi.bind hi'
  case note q value l ls hl ht h _ hi =>
    intro rest hr
    rw [h] at hr ⊢
    cases hd : q ls
    case done =>
      rw [hd] at hr
      cases hr
      obtain ⟨used, rfl, hu, hb⟩ := hi rest (by rw [hd]; rfl)
      rw [hd] at hb
      exact ⟨l :: used, rfl, List.forall_mem_cons.mpr ⟨hl, hu⟩, hb.note ht⟩
    case failed =>
      rw [hd] at hr
      cases hr
      obtain ⟨used, rfl, hu, hb⟩ := hi rest (by rw [hd]; rfl)
      rw [hd] at hb
      exact ⟨l :: used, rfl, List.forall_mem_cons.mpr ⟨hl, hu⟩, (Blamed.nil [l] _).append hu hb⟩
    case exhausted =>
      rw [hd] at hr
      contradiction
  case recovered p ls _ hp hi =>
    intro rest hr
    rw [Phrase.recovered] at hr ⊢
    cases hd : p ls
    case done value rest₁ errors =>
      rw [hd] at hr
      cases hr
      obtain ⟨used, rfl, hu, hb⟩ := hi rest (by rw [hd]; rfl)
      rw [hd] at hb
      exact ⟨used, rfl, hu, hb⟩
    case failed error rest₁ errors =>
      obtain ⟨used, rfl, hu, hb⟩ := hi rest₁ (by rw [hd]; rfl)
      obtain ⟨hh, hk, hbr⟩ := hp.failed hd
      rw [hd] at hr hb
      cases hs : resume? rest₁
      case none =>
        simp only [hs] at hr
        contradiction
      case some rest₂ =>
        simp only [hs] at hr ⊢
        cases hr
        obtain ⟨skipped, rfl, hn, he⟩ := resume?_eq_some hs
        -- The lexeme of the error is the first that recovery skips, or an end, which it leaves.
        refine ⟨used ++ skipped, (List.append_assoc ..).symm,
          List.forall_mem_append.mpr ⟨hu, hn⟩, hb.append hn ?_⟩
        exact .failed hh hk hbr hn fun hs => he hs _ hh
    case exhausted =>
      rw [hd] at hr
      contradiction

end Phrase

variable {ls : List Lexeme} {eof : Lexeme} {errors : List ParseError}

theorem exists_blamed_of_parse? (hl : ∀ l ∈ ls, ¬l.IsEnd) (he : eof.IsEnd) :
    ∃ parsed, parse? (ls ++ [eof]) = some parsed ∧ Blamed ls [eof] parsed.errors := by
  obtain ⟨stmts, errors, hd⟩ := Phrase.exists_program hl he []
  rw [← Phrase.program_eq (Nat.lt_succ_self _)] at hd
  have hb : (Phrase.program ((ls ++ [eof]).length + 1)).Blames (ls ++ [eof]) :=
    (Phrase.orderly_bounded Phrase.closesProgram _ _).blames
  obtain ⟨used, hu, _, hb⟩ := hb [eof] (by rw [hd]; rfl)
  obtain rfl := List.append_cancel_right hu
  refine ⟨⟨stmts, errors⟩, by rw [parse?, hd], ?_⟩
  rw [hd] at hb
  exact hb

theorem ParseError.location_eq_atEnd_iff (e : ParseError) :
    e.message.location = .atEnd ↔ e.lexeme.IsEnd :=
  ⟨Location.isEnd_of_eq_atEnd, fun h => if_pos h⟩

namespace Blamed

theorem pairwise_line_ne (h : Blamed ls [eof] errors) (hp : ls.Pairwise (·.line < ·.line)) :
    (errors.filter (·.message.location ≠ .atEnd)).Pairwise (·.message.line ≠ ·.message.line) := by
  simp only [ne_eq, ParseError.location_eq_atEnd_iff]
  obtain ⟨blamed, hb, hs⟩ := h.once
  have hp : blamed.Pairwise (·.line ≠ ·.line) := (hp.imp Nat.ne_of_lt).sublist hs
  exact List.pairwise_map.mp <| (hb.pairwise_iff fun h => h.symm).mp hp

theorem pairwise_line_le (h : Blamed ls [eof] errors)
    (hp : (ls ++ [eof]).Pairwise (·.line < ·.line)) :
    (errors.filter (·.kind ≠ .invalidAssignmentTarget)).Pairwise fun e e' =>
      e.message.line < e'.message.line ∨
        e.message.line = e'.message.line ∧ e.message.location = .atEnd ∧
          e'.message.location = .atEnd := by
  simp only [ParseError.location_eq_atEnd_iff]
  obtain ⟨early, late, he, hs, hl⟩ := h.ordered
  obtain ⟨hp, _, hn⟩ := List.pairwise_append.mp hp
  have hl (e : ParseError) (he : e ∈ late) : e.lexeme.IsEnd ∧ e.lexeme = eof :=
    ⟨(hl e he).left, (Option.some.inj (hl e he).right).symm⟩
  rw [he]
  refine List.pairwise_append.mpr ⟨?early, ?late, fun e he e' he' => ?_⟩
  case early => exact (List.pairwise_map.mp <| hp.sublist hs).imp .inl
  case late =>
    refine List.pairwise_of_forall_mem_list fun e he e' he' => .inr ?_
    have ⟨hn, h⟩ := hl e he
    have ⟨hn', h'⟩ := hl e' he'
    exact ⟨congrArg Lexeme.line (h.trans h'.symm), hn, hn'⟩
  case _ =>
    have hm : e.lexeme ∈ ls := hs.subset <| List.mem_map_of_mem he
    exact .inl <| hn e.lexeme hm e'.lexeme <| List.mem_singleton.mpr (hl e' he').right

theorem mem (h : Blamed ls [eof] errors) {e : ParseError} (he : e ∈ errors) (hn : ¬e.lexeme.IsEnd) :
    e.lexeme ∈ ls :=
  h.once.subset <| List.mem_map_of_mem <| List.mem_filter.mpr ⟨he, decide_eq_true hn⟩

end Blamed

-- Lines stand for lexemes here, as each lexeme has its own. Errors inside of one another are found
-- from the inside out, and blocks that are open at the end blame it once each, but nothing else is
-- blamed twice.
theorem parse?_blames_once (hl : ∀ l ∈ ls, ¬l.IsEnd) (he : eof.IsEnd)
    (hp : (ls ++ [eof]).Pairwise (·.line < ·.line)) :
    ∃ parsed, parse? (ls ++ [eof]) = some parsed ∧
      (parsed.errors.filter (·.message.location ≠ .atEnd)).Pairwise
        (·.message.line ≠ ·.message.line) ∧
      ((parsed.errors.filter (·.kind ≠ .invalidAssignmentTarget)).Pairwise fun e e' =>
        e.message.line < e'.message.line ∨
          e.message.line = e'.message.line ∧ e.message.location = .atEnd ∧
            e'.message.location = .atEnd) ∧
      ∀ e ∈ parsed.errors,
        (e.kind = .invalidAssignmentTarget → e.lexeme ∈ ls ∧ e.lexeme.token = .equal) ∧
        (e.kind = .expectedRightBraceAfterBlock → e.message.location = .atEnd) := by
  obtain ⟨parsed, h, hb⟩ := exists_blamed_of_parse? hl he
  have hp' := (List.pairwise_append.mp hp).left
  refine ⟨parsed, h, hb.pairwise_line_ne hp', hb.pairwise_line_le hp, fun e hm => ⟨?_, ?_⟩⟩
  case refine_1 =>
    intro hk
    have ht := hb.targets e hm hk
    exact ⟨hb.mem hm <| Lexeme.not_isEnd ht nofun, ht⟩
  case refine_2 => exact fun hk => e.location_eq_atEnd_iff.mpr <| hb.braces e hm hk

theorem parse?_blames_once_in_open_blocks :
    let ls : List Lexeme := [⟨.leftBrace, "", 1⟩, ⟨.literal (.number 1), "", 2⟩, ⟨.equal, "", 3⟩,
      ⟨.literal (.number 2), "", 4⟩, ⟨.equal, "", 5⟩, ⟨.literal (.number 3), "", 6⟩,
      ⟨.semicolon, "", 7⟩, ⟨.keyword .printWord, "", 8⟩, ⟨.semicolon, "", 9⟩, ⟨.leftBrace, "", 10⟩]
    let eof : Lexeme := ⟨.eof, "", 11⟩
    (∀ l ∈ ls, ¬l.IsEnd) ∧ eof.IsEnd ∧ (ls ++ [eof]).Pairwise (·.line < ·.line) ∧
      ∃ parsed, parse? (ls ++ [eof]) = some parsed ∧
        (parsed.errors.filter (·.message.location ≠ .atEnd)).Pairwise
          (·.message.line ≠ ·.message.line) ∧
        ((parsed.errors.filter (·.kind ≠ .invalidAssignmentTarget)).Pairwise fun e e' =>
          e.message.line < e'.message.line ∨
            e.message.line = e'.message.line ∧ e.message.location = .atEnd ∧
              e'.message.location = .atEnd) ∧
        ∀ e ∈ parsed.errors,
          (e.kind = .invalidAssignmentTarget → e.lexeme ∈ ls ∧ e.lexeme.token = .equal) ∧
          (e.kind = .expectedRightBraceAfterBlock → e.message.location = .atEnd) := by
  intro ls eof
  have hl : ∀ l ∈ ls, ¬l.IsEnd := by decide
  have hp : (ls ++ [eof]).Pairwise (·.line < ·.line) := by decide
  exact ⟨hl, rfl, hp, parse?_blames_once hl rfl hp⟩

end Lox
