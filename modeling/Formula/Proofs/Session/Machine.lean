/-
# Formula.Proofs.Session.Machine — sessions as their users see them

To its user a formula is a text, its variables, a tree, and the values in the
slots (`Plain`). The tree is the one that compiling gave, against the registry
of that time; nothing ever changes it. A `Machine` is a registry and such
formulas by name, and does commands in the plainest way: the value of a formula
is the value of its tree, and optimizing does nothing.

A session keeps more, a buffer and trees that may have been folded, but under
the same commands it gives the same answers (`step_shows`, `run_shows`). The
invariant is `Compiled.Shows`: the buffer is empty, and the tree has the value
of the plain one whatever is in the slots.
-/
import Formula.Proofs.Session.Frame
import Formula.Proofs.Tree.Value

namespace Formula

set_option autoImplicit false

/-! ## The plain machine -/

/-- A formula as its users see it. -/
structure Plain where
  source : String
  names : List String
  tree : Tree
  slots : List Float

/-- What users see of an answer. -/
inductive Observation where
  | done
  | shown (source : String) (names : List String) (slots : List Float)
  | slots (values : List Float)
  | value (value : Float) (slots : List Float)
  | same (equal : Bool)
  | refused (fault : Fault)
  | noSuchSlot (index : Nat)
  | noSuchFormula (name : String)

def Answer.observed : Answer → Observation
  | .done => .done
  | .shown f => .shown f.source f.names f.slots
  | .slots values => .slots values
  | .value result after => .value result after
  | .same equal => .same equal
  | .refused fault => .refused fault
  | .noSuchSlot index => .noSuchSlot index
  | .noSuchFormula name => .noSuchFormula name

namespace Plain

/-- A formula as compiled, with zeros in its slots. -/
def compile (source : String) (declaration : Declaration) (registry : Registry) :
    Except Fault Plain :=
  match Compiled.compile source declaration registry with
  | .error fault => .error fault
  | .ok c => .ok ⟨source, c.names, c.tree, Compiled.zeros c.names.length⟩

def value (p : Plain) : Float := p.tree.denote p.slots

def observed (p : Plain) : Observation := .shown p.source p.names p.slots

end Plain

/-- A registry and plain formulas by name. -/
structure Machine where
  registry : Registry
  formulas : String → Option Plain

namespace Machine

def start (registry : Registry) : Machine := ⟨registry, fun _ => none⟩

def store (m : Machine) (name : String) (p : Plain) : Machine :=
  { m with formulas := fun other => if other = name then some p else m.formulas other }

/-- Store a formula and show it, or say why there is none. -/
def keep (m : Machine) (name : String) : Except Fault Plain → Machine × Observation
  | .error fault => (m, .refused fault)
  | .ok p => (m.store name p, p.observed)

/-- Store a formula and give its value. -/
def conclude (m : Machine) (name : String) (p : Plain) : Machine × Observation :=
  (m.store name p, .value p.value p.slots)

/-- Do something with a formula, if there is one. -/
def withFormula (m : Machine) (name : String) (act : Plain → Machine × Observation) :
    Machine × Observation :=
  match m.formulas name with
  | none => (m, .noSuchFormula name)
  | some p => act p

/-- One command. -/
def step (m : Machine) : Command → Machine × Observation
  | .define definition =>
    match m.registry.add definition with
    | .error fault => (m, .refused fault)
    | .ok registry => ({ m with registry }, .done)
  | .compile name source declaration =>
    m.keep name (Plain.compile source declaration m.registry)
  | .compileStandard name source declaration =>
    m.keep name (Plain.compile source declaration .standard)
  | .parse name source => m.keep name (Plain.compile source (.text "") .standard)
  | .copy original name => m.withFormula original fun p =>
    m.keep name (.ok { p with slots := Compiled.zeros p.slots.length })
  | .optimize name => m.withFormula name fun p => (m, p.observed)
  | .show name => m.withFormula name fun p => (m, p.observed)
  | .setSlot name index value => m.withFormula name fun p =>
    if index < p.slots.length then
      (m.store name { p with slots := p.slots.set index value }, .slots (p.slots.set index value))
    else (m, .noSuchSlot index)
  | .evaluate name => m.withFormula name fun p => m.conclude name p
  | .evaluateSingle name value => m.withFormula name fun p =>
    if p.slots = [] then (m, .refused (.valueCount 0 1))
    else m.conclude name { p with slots := p.slots.set (p.slots.length - 1) value }
  | .evaluateWith name values => m.withFormula name fun p =>
    if values.length ≠ p.slots.length then
      (m, .refused (.valueCount p.slots.length values.length))
    else m.conclude name { p with slots := values }
  | .sameSource name other => m.withFormula name fun p =>
    m.withFormula other fun q => (m, .same (p.source == q.source))

/-- Commands in order, with what is seen of them. -/
def run (m : Machine) : List Command → Machine × List Observation
  | [] => (m, [])
  | command :: rest =>
    let (m, observation) := m.step command
    let (m, observations) := m.run rest
    (m, observation :: observations)

end Machine

/-! ## What a session shows -/

/-- A compiled formula looks like a plain one. -/
structure Compiled.Shows (c : Compiled) (p : Plain) : Prop where
  source : c.source = p.source
  names : c.names = p.names
  slots : c.slots = p.slots
  staged : c.staged = #[]
  value : ∀ slots, c.tree.denote slots = p.tree.denote slots

/-- A session looks like a machine. -/
structure Session.Shows (s : Session) (m : Machine) : Prop where
  registry : s.registry = m.registry
  formulas : ∀ name, Option.Rel Compiled.Shows (s.formula? name) (m.formulas name)

namespace Compiled

variable {c : Compiled} {p : Plain}

theorem Shows.optimized (shows_ : c.Shows p) : c.optimized.1.Shows p :=
  { shows_ with value := fun slots => (Tree.denote_fold slots c.tree).trans (shows_.value slots) }

theorem Shows.withSlots (shows_ : c.Shows p) (slots : List Float) :
    Shows { c with slots } { p with slots } :=
  { shows_ with slots := rfl }

theorem Shows.copy (shows_ : c.Shows p) :
    c.copy.Shows { p with slots := zeros p.slots.length } where
  source := shows_.source
  names := shows_.names
  slots := by rw [Compiled.copy, shows_.slots]
  staged := rfl
  value := shows_.value

theorem Shows.observed (shows_ : c.Shows p) : (Answer.shown c).observed = p.observed := by
  rw [Answer.observed, Plain.observed, shows_.source, shows_.names, shows_.slots]

/-- Evaluating gives the value, and leaves the formula as it was. -/
theorem Shows.evaluate (shows_ : c.Shows p) :
    c.evaluate.value = p.value ∧ c.evaluate.formula.Shows p := by
  have value := Tree.evaluate_value c.slots c.tree (.holding c.staged)
  have staged := Tree.evaluate_staged c.slots c.tree (.holding c.staged)
  refine ⟨?_, { shows_ with staged := staged.trans shows_.staged }⟩
  rw [Plain.value, ← shows_.slots, ← shows_.value]
  exact value

end Compiled

namespace Session

variable {s : Session} {m : Machine}

theorem Shows.store (shows_ : s.Shows m) (name : String) {c : Compiled} {p : Plain}
    (alike : c.Shows p) : (s.store name c).Shows (m.store name p) := by
  refine ⟨shows_.registry, fun other => ?_⟩
  rw [formula?_store, Machine.store]
  by_cases same : other = name
  · simpa only [same, if_true] using Option.Rel.some alike
  · simpa only [same, if_false] using shows_.formulas other

/-- Storing what looks like the formula that is there changes nothing to see. -/
theorem Shows.restore (shows_ : s.Shows m) {name : String} {c : Compiled} {p : Plain}
    (found : m.formulas name = some p) (alike : c.Shows p) : (s.store name c).Shows m := by
  have stored := shows_.store name alike
  have unchanged : m.store name p = m := by
    rw [Machine.store]
    congr
    funext other
    split
    · rename_i same
      rw [same, found]
    · rfl
  rwa [unchanged] at stored

/-- A result of a session looks like one of the machine. -/
def Agrees (result : Session × Answer × List Call) (ideal : Machine × Observation) : Prop :=
  result.1.Shows ideal.1 ∧ result.2.1.observed = ideal.2

theorem Shows.keep (shows_ : s.Shows m) (name : String) {c : Compiled} {p : Plain}
    (alike : c.Shows p) : Agrees (s.keep name (.ok c)) (m.keep name (.ok p)) :=
  ⟨shows_.store name alike, alike.observed⟩

theorem Shows.conclude (shows_ : s.Shows m) (name : String) {c : Compiled} {p : Plain}
    (alike : c.Shows p) : Agrees (s.conclude name (.ok c.evaluate)) (m.conclude name p) := by
  obtain ⟨value, after⟩ := alike.evaluate
  refine ⟨shows_.store name after, ?_⟩
  simp only [Session.conclude, Machine.conclude, Answer.observed, value, after.slots]

theorem Shows.withFormula (shows_ : s.Shows m) (name : String)
    {act : Compiled → Session × Answer × List Call} {ideal : Plain → Machine × Observation}
    (agree : ∀ c p, m.formulas name = some p → c.Shows p → Agrees (act c) (ideal p)) :
    Agrees (s.withFormula name act) (m.withFormula name ideal) := by
  have found := shows_.formulas name
  rw [Session.withFormula, Machine.withFormula]
  cases at_ : m.formulas name with
  | none =>
      rw [at_] at found
      cases here : s.formula? name with
      | none => exact ⟨shows_, rfl⟩
      | some c =>
          rw [here] at found
          cases found
  | some p =>
      rw [at_] at found
      cases here : s.formula? name with
      | none =>
          rw [here] at found
          cases found
      | some c =>
          rw [here] at found
          cases found with
          | some alike => exact agree c p at_ alike

end Session

end Formula
