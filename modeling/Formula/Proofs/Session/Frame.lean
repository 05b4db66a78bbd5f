/-
# Formula.Proofs.Session.Frame — what a command leaves alone

A command does one of three things to a session (`step_cases`): nothing, which
is all that a failing one does, put a definition into the registry, or store a
formula under the one name it is for (`Command.target?`). All other formulas
stay, and so does the registry (`Framed`).
-/
import Formula.Session

namespace Formula

set_option autoImplicit false

/-- The name a command may store a formula under. -/
def Command.target? : Command → Option String
  | .define _ | .show _ | .sameSource _ _ => none
  | .compile name _ _ | .compileStandard name _ _ | .parse name _ => some name
  | .copy _ name => some name
  | .optimize name | .setSlot name _ _ => some name
  | .evaluate name | .evaluateSingle name _ | .evaluateWith name _ => some name

/-- Whether a command could not be done. -/
def Answer.isFailure : Answer → Bool
  | .refused _ | .noSuchSlot _ | .noSuchFormula _ => true
  | .done | .shown _ | .slots _ | .value _ _ | .same _ => false

namespace Session

@[simp] theorem formula?_store (s : Session) (name other : String) (formula : Compiled) :
    (s.store name formula).formula? other =
      if other = name then some formula else s.formula? other := by
  rw [formula?, formula?, store, List.lookup_cons]
  by_cases same : other = name
  · simp [same]
  · have differs : (other == name) = false := by simpa using same
    simp only [differs, if_neg same]
    induction s.formulas with
    | nil => rfl
    | cons entry rest ih =>
        obtain ⟨key, found⟩ := entry
        by_cases dropped : key = name
        · have missed : (other == key) = false := by simpa [dropped] using same
          simpa [dropped, List.lookup_cons, missed, differs] using ih
        · rw [List.filter_cons_of_pos (by simpa using dropped), List.lookup_cons,
            List.lookup_cons, ih]

/-- What became of a session under a command for a name. -/
inductive Outcome (s : Session) (target? : Option String) :
    Session × Answer × List Call → Prop where
  | kept (answer : Answer) (calls : List Call) : Outcome s target? (s, answer, calls)
  | stored {name : String} (formula : Compiled) (answer : Answer) (calls : List Call) :
    target? = some name → answer.isFailure = false →
    Outcome s target? (s.store name formula, answer, calls)

theorem keep_outcome (s : Session) (name : String) (compiled : Except Fault Compiled) :
    Outcome s (some name) (s.keep name compiled) := by
  cases compiled with
  | error fault => exact .kept _ _
  | ok formula => exact .stored _ _ _ rfl rfl

theorem conclude_outcome (s : Session) (name : String) (result : Except Fault Evaluation) :
    Outcome s (some name) (s.conclude name result) := by
  cases result with
  | error fault => exact .kept _ _
  | ok result => exact .stored _ _ _ rfl rfl

theorem withFormula_outcome {s : Session} {target? : Option String} (name : String)
    {act : Compiled → Session × Answer × List Call}
    (outcome : ∀ f, Outcome s target? (act f)) : Outcome s target? (s.withFormula name act) := by
  unfold withFormula
  split
  · exact .kept _ _
  · exact outcome _

/-- A command defines something, or keeps the session but for one formula. -/
theorem step_cases (s : Session) (command : Command) :
    (∃ definition registry, command = .define definition ∧
      s.registry.add definition = .ok registry ∧
      s.step command = ({ s with registry }, .done, [])) ∨
    Outcome s command.target? (s.step command) := by
  cases command with
  | define definition =>
      cases added : s.registry.add definition with
      | error fault =>
          refine .inr ?_
          simp only [step, added]
          exact .kept _ _
      | ok registry => exact .inl ⟨definition, registry, rfl, added, by simp only [step, added]⟩
  | compile name source declaration => exact .inr (keep_outcome ..)
  | compileStandard name source declaration => exact .inr (keep_outcome ..)
  | parse name source => exact .inr (keep_outcome ..)
  | copy original name => exact .inr (withFormula_outcome _ fun _ => keep_outcome ..)
  | optimize name => exact .inr (withFormula_outcome _ fun _ => .stored _ _ _ rfl rfl)
  | «show» name => exact .inr (withFormula_outcome _ fun _ => .kept _ _)
  | setSlot name index value =>
      refine .inr (withFormula_outcome _ fun f => ?_)
      split
      · exact .kept _ _
      · exact .stored _ _ _ rfl rfl
  | evaluate name => exact .inr (withFormula_outcome _ fun _ => conclude_outcome ..)
  | evaluateSingle name value => exact .inr (withFormula_outcome _ fun _ => conclude_outcome ..)
  | evaluateWith name values => exact .inr (withFormula_outcome _ fun _ => conclude_outcome ..)
  | sameSource name other =>
      exact .inr (withFormula_outcome _ fun _ => withFormula_outcome _ fun _ => .kept _ _)

end Session

end Formula
