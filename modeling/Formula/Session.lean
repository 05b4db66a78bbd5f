/-
# Formula.Session — named formulas and a registry under commands

A session holds a registry and formulas under names. Commands define symbols,
compile, copy, optimize and evaluate formulas, and write their slots. A command
that fails answers why and changes nothing, and a command on one formula leaves
the others as they are. Formulas keep the definitions they were compiled with.
-/
import Formula.Compiled
import Formula.Registry.Standard

namespace Formula

set_option autoImplicit false

/-- What a session can be asked to do. -/
inductive Command where
  | define (definition : Definition)
  /-- Compile a source against the registry of the session. -/
  | compile (name source : String) (declaration : Declaration)
  /-- Compile a source against the standard registry. -/
  | compileStandard (name source : String) (declaration : Declaration)
  /-- Compile a source without variables against the standard registry. -/
  | parse (name source : String)
  | copy (original name : String)
  | optimize (name : String)
  | show (name : String)
  | setSlot (name : String) (index : Nat) (value : Float)
  | evaluate (name : String)
  | evaluateSingle (name : String) (value : Float)
  | evaluateWith (name : String) (values : List Float)
  | sameSource (name other : String)

/-- What a command answers. -/
inductive Answer where
  | done
  | shown (formula : Compiled)
  | slots (values : List Float)
  | value (value : Float) (slots : List Float)
  | same (equal : Bool)
  | refused (fault : Fault)
  | noSuchSlot (index : Nat)
  | noSuchFormula (name : String)

/-- A registry and formulas by name, newest first. -/
structure Session where
  registry : Registry
  formulas : List (String × Compiled)

namespace Session

/-- A session without formulas. -/
def start (registry : Registry) : Session := ⟨registry, []⟩

def formula? (s : Session) (name : String) : Option Compiled := s.formulas.lookup name

/-- Put a formula under a name. -/
def store (s : Session) (name : String) (formula : Compiled) : Session :=
  { s with formulas := (name, formula) :: s.formulas.filter (·.1 != name) }

/-- Store a compiled formula and show it, or say why there is none. -/
def keep (s : Session) (name : String) : Except Fault Compiled → Session × Answer × List Call
  | .error fault => (s, .refused fault, [])
  | .ok formula => (s.store name formula, .shown formula, [])

/-- Store an evaluated formula and give its value, or say why there is none. -/
def conclude (s : Session) (name : String) :
    Except Fault Evaluation → Session × Answer × List Call
  | .error fault => (s, .refused fault, [])
  | .ok result =>
    (s.store name result.formula, .value result.value result.formula.slots, result.calls)

/-- Do something with a stored formula. -/
def withFormula (s : Session) (name : String)
    (act : Compiled → Session × Answer × List Call) : Session × Answer × List Call :=
  match s.formula? name with
  | none => (s, .noSuchFormula name, [])
  | some formula => act formula

/-- One command: the session afterwards, the answer, and the calls made. -/
def step (s : Session) : Command → Session × Answer × List Call
  | .define definition =>
    match s.registry.add definition with
    | .error fault => (s, .refused fault, [])
    | .ok registry => ({ s with registry }, .done, [])
  | .compile name source declaration =>
    s.keep name (Compiled.compile source declaration s.registry)
  | .compileStandard name source declaration =>
    s.keep name (Compiled.compile source declaration .standard)
  | .parse name source => s.keep name (Compiled.compile source (.text "") .standard)
  | .copy original name => s.withFormula original fun f => s.keep name (.ok f.copy)
  | .optimize name => s.withFormula name fun f =>
    let (optimized, calls) := f.optimized
    (s.store name optimized, .shown optimized, calls)
  | .show name => s.withFormula name fun f => (s, .shown f, [])
  | .setSlot name index value => s.withFormula name fun f =>
    match f.setSlot? index value with
    | none => (s, .noSuchSlot index, [])
    | some f => (s.store name f, .slots f.slots, [])
  | .evaluate name => s.withFormula name fun f => s.conclude name (.ok f.evaluate)
  | .evaluateSingle name value => s.withFormula name fun f =>
    s.conclude name (f.evaluateSingle value)
  | .evaluateWith name values => s.withFormula name fun f =>
    s.conclude name (f.evaluateWith values)
  | .sameSource name other => s.withFormula name fun f =>
    s.withFormula other fun g => (s, .same (f.sameSource g), [])

/-- Commands in order, with their answers. -/
def run (s : Session) : List Command → Session × List (Answer × List Call)
  | [] => (s, [])
  | command :: rest =>
    let (s, answer, calls) := s.step command
    let (s, answers) := s.run rest
    (s, (answer, calls) :: answers)

end Session

end Formula
