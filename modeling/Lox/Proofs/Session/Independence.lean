import Lox.Proofs.Execution.Independence
import Lox.Proofs.Session.Provenance

namespace Lox

theorem Sink.Twins.report {first first' s s' after : Sink} (h : Twins first first' s s')
    {ms : List Message} {fits : Bool} (hr : s.report ms = (fits, after)) :
    ∃ after', s'.report ms = (fits, after') ∧ Twins first first' after after' := by
  induction ms generalizing s s'
  case nil =>
    cases hr
    exact ⟨_, rfl, h⟩
  case cons m ms hi =>
    rcases hw : s.write (m.text ++ "\n") with ⟨_ | _, s₁⟩
    all_goals
      obtain ⟨s₁', hw', h⟩ := h.write hw
      simp only [report_cons, writeLine, hw] at hr
      simp only [report_cons, writeLine, hw']
    case false =>
      cases hr
      exact ⟨_, rfl, h⟩
    case true => exact hi h hr

def Token.name? : Token → Option String
  | identifier name => some name
  | _               => none

namespace Session

variable {names : Set String} {s s' t : Session} {source : String}
variable {result : Except Failure Outcome}

def identifiers (source : String) : List String :=
  (Scan.ofSource source).lexemes.filterMap (·.token.name?)

theorem namesIn_program (h : ∀ name ∈ identifiers source, name ∈ names) :
    Terminal.NamesIn names (Stmt.yields <| program source) := by
  intro l ⟨name, ht⟩ hm
  have hl := mem_lexemes_of_held hm
  have hi : name ∈ identifiers source := List.mem_filterMap.mpr ⟨l, hl, by rw [ht]; rfl⟩
  exact Scan.content_of_identifier hl ht ▸ h name hi

-- Sessions outside of any block that no source with these names can tell from one another. What was
-- written in them before does not matter, but for how much more can be written.
structure AgreeOn (names : Set String) (s s' : Session) : Prop where
  depth   : s.machine.env.depth = 1
  depth'  : s'.machine.env.depth = 1
  globals : ∀ name ∈ names, s'.machine.env.globals.get? name = s.machine.env.globals.get? name
  output  : s'.machine.output.room = s.machine.output.room
  errors  : s'.errors.room = s.errors.room

structure Twins (names : Set String) (first first' s s' : Session) : Prop where
  machine : Machine.Twins names first.machine first'.machine s.machine s'.machine
  errors  : Sink.Twins first.errors first'.errors s.errors s'.errors

theorem AgreeOn.locals (h : AgreeOn names s s') :
    s'.machine.env.locals = s.machine.env.locals := by
  have hl := List.length_eq_zero_iff.mp <| Nat.succ.inj h.depth
  have hl' := List.length_eq_zero_iff.mp <| Nat.succ.inj h.depth'
  rw [hl, hl']

theorem AgreeOn.twins (h : AgreeOn names s s') : Twins names s s' s s' where
  machine := ⟨⟨h.locals, h.globals, fun _ _ => rfl, fun _ _ => rfl⟩, .refl h.output⟩
  errors  := .refl h.errors

theorem Ends.exists_twins (h : s.Ends source result t) (ha : AgreeOn names s s')
    (hn : ∀ name ∈ identifiers source, name ∈ names) :
    ∃ t', s'.Ends source result t' ∧ Twins names s s' t t' := by
  have ⟨hm₀, he₀⟩ := ha.twins
  have hi (fuel : Nat) :=
    Stmt.interpret_twins fuel (wellFormed_program source) (namesIn_program hn) hm₀
  cases h
  case static hm hr =>
    have ⟨errors', hr', he⟩ := he₀.report hr
    exact ⟨_, .static hm hr', hm₀, he⟩
  case done fuel m hm hr =>
    have ⟨m', hr', h⟩ := (hi fuel).exists_done hr
    exact ⟨_, .done hm hr', h, he₀⟩
  case fault hm hr hw =>
    have ⟨m', hr', h⟩ := (hi _).exists_stopped hr
    have ⟨errors', hw', he⟩ := he₀.write hw
    exact ⟨_, .fault hm hr' hw', h, he⟩
  case cut hm hr =>
    have ⟨m', hr', h⟩ := (hi _).exists_stopped hr
    exact ⟨_, .cut hm hr', h, he₀⟩

-- Globals that are not named in a source make no difference to what a session does with it, and it
-- makes none to them.
theorem runs_independent (h : AgreeOn names s s') (hn : ∀ name ∈ identifiers source, name ∈ names)
    (hr : s.Runs source result t) :
    ∃ t', s'.Runs source result t' ∧ AgreeOn names t t' ∧
      (∃ written,
        t.machine.output.taken.toList = s.machine.output.taken.toList ++ written ∧
        t'.machine.output.taken.toList = s'.machine.output.taken.toList ++ written) ∧
      (∃ messages, t.errors.taken.toList = s.errors.taken.toList ++ messages ∧
        t'.errors.taken.toList = s'.errors.taken.toList ++ messages) ∧
      ∀ name ∉ names, t.machine.env.globals.get? name = s.machine.env.globals.get? name ∧
        t'.machine.env.globals.get? name = s'.machine.env.globals.get? name := by
  have hr := runs_iff.mp hr
  have ⟨t', hr', ⟨henv, ho⟩, he⟩ := hr.exists_twins h hn
  have hd := hr.grows.machine.env.depth_eq.trans h.depth
  have hd' := hr'.grows.machine.env.depth_eq.trans h.depth'
  exact ⟨t', runs_iff.mpr hr', ⟨hd, hd', henv.inside, ho.room, he.room⟩, ho.taken, he.taken,
    fun name hn => ⟨henv.outside name hn, henv.outside' name hn⟩⟩

theorem runs_independent_of_other_globals :
    let words := ["b", "go"]
    let names := {name | name ∈ words}
    let go := Scope.empty.set "go" (.boolean true)
    let s : Session := ⟨⟨⟨go.set "c" (.string "d"), []⟩, {}⟩, {}⟩
    let s' : Session := ⟨⟨⟨(go.set "e" .nil).set "f" .nil, []⟩, ⟨#[62, 32], none⟩⟩, {}⟩
    let source := "while (go) \x7b go = false; var go = \"a\"; print go; \x7d print b;"
    AgreeOn names s s' ∧ (∀ name ∈ identifiers source, name ∈ names) ∧
      ∃ t t', s.Runs source (.ok .runtimeError) t ∧ s'.Runs source (.ok .runtimeError) t' ∧
        AgreeOn names t t' ∧ t'.machine.env.globals.get? "e" = some .nil := by
  intro words names go s s' source
  have hg : ∀ name ∈ words, s'.machine.env.globals.get? name = s.machine.env.globals.get? name := by
    decide +kernel
  have hn : ∀ name ∈ identifiers source, name ∈ words := by decide +kernel
  have he : (s.run 2 source).1 = .ok .runtimeError := by decide +kernel
  have h : AgreeOn names s s' := ⟨rfl, rfl, hg, rfl, rfl⟩
  have hr : s.Runs source (.ok .runtimeError) _ := ⟨2, Prod.ext he rfl, by simp⟩
  obtain ⟨t', hr', ha, _, _, ho⟩ := runs_independent h hn hr
  exact ⟨h, hn, _, t', hr, hr', ha, (ho "e" <| by decide +kernel).right⟩

end Session
end Lox
