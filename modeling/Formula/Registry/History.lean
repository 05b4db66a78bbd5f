/-
# Formula.Registry.History — a registry in use

A registry lives through definitions, lookups, texts read against it, and
copies put aside and brought back. A definition that is refused changes
nothing; reading a text only makes the registry keep its token pattern.
-/
import Formula.Compiled
import Formula.Registry.Standard

namespace Formula.Registry

set_option autoImplicit false

/-- What can happen to a registry. -/
inductive Event where
  | define (definition : Definition)
  | lookup (name : String)
  | lex (source : String) (declaration : Declaration)
  | evaluate (source : String)
  | save
  | restore

/-- What an event answers. -/
inductive Reply where
  | done
  | found (operator : Option Operator) (routine : Option Routine) (constant : Option Float)
  | lexed (source : String) (result : Lexed)
  | value (value : Float) (calls : List Call)
  | refused (fault : Fault)

/-- A registry and the copy that was last put aside. -/
structure History where
  current : Registry
  saved : Option Registry

namespace History

/-- A registry with no copy put aside. -/
def start (r : Registry) : History := ⟨r, none⟩

/-- One event. -/
def step (h : History) : Event → History × Reply
  | .define definition =>
    match h.current.add definition with
    | .error fault => (h, .refused fault)
    | .ok current => ({ h with current }, .done)
  | .lookup name =>
    (h, .found (h.current.operator? name) (h.current.routine? name) (h.current.constant? name))
  | .lex source declaration =>
    ({ h with current := h.current.keepPattern },
      .lexed source (Formula.lex ⟨declaration.toNames, h.current⟩ source.toList))
  | .evaluate source =>
    ({ h with current := h.current.keepPattern },
      match Compiled.compile source (.names []) h.current with
      | .error fault => .refused fault
      | .ok formula => .value formula.evaluate.value formula.evaluate.calls)
  | .save => ({ h with saved := some h.current }, .done)
  | .restore => ({ h with current := h.saved.getD standard }, .done)

/-- Events in order, with their answers. -/
def run (h : History) : List Event → History × List Reply
  | [] => (h, [])
  | event :: rest =>
    let (h, reply) := h.step event
    let (h, replies) := h.run rest
    (h, reply :: replies)

end History

end Formula.Registry
