/-
# Formula.Proofs.Modes — one formula under different flags

A command line that asks for a formula does one of four things with it: it shows the
tokens, their postfix order or the tree, or it prints the value (`Mode`). The modes
assemble the stages of compiling each in its own way, and the two that show tokens
leave out some of the checks. Still they agree (`modes_agree`): whatever stops the
tokens or their order also stops the tree, and beyond the tree a value wants nothing
but as many values as there are variables.

A flag that stands in front of a command line is set, and nothing else changes
(`read?_cons_flag`), so every command line that asks for a value has one for each
mode.
-/
import Formula.CommandLine
import Formula.Proofs.Compiling
import Formula.Proofs.Optimization
import Mathlib.Data.List.TakeWhile

namespace Formula.CommandLine

set_option autoImplicit false

/-- What a command line wants to see of a formula. -/
inductive Mode where
  | tokens
  | order
  | tree
  | value
deriving DecidableEq

/-- The mode that some flags stand for: the earliest stage that is to be seen. -/
def Mode.of (flags : List Flag) : Mode :=
  if .debugLexer ∈ flags then .tokens
  else if .debugPostfix ∈ flags then .order
  else if .debugTree ∈ flags then .tree
  else .value

/-- The code of the fault that ended a run. -/
def Outcome.code? (o : Outcome) : Option String := o.fault.map Fault.code

namespace Invocation

/-- The variables that are declared for a formula. -/
def names (i : Invocation) : List String := (Declaration.text i.declared).toNames

/-- What a formula compiles to. -/
def compiled (i : Invocation) : Except Fault Compiled :=
  Compiled.compile i.expression (.text i.declared) .standard

end Invocation

/-- The command line asks for a formula in some mode, whatever the flags of the
invocation are. -/
def Asks (i : Invocation) (mode : Mode) (line : List String) : Prop :=
  ∃ flags, read? line = some (.formula { i with flags }) ∧ Mode.of flags = mode

/-- A result on a line of its own, or the fault that there is instead. -/
def concluded : Except Fault String → Outcome
  | .error fault => .failure fault
  | .ok text => .success (text ++ "\n")

/-! ## Flags in front -/

section Flags

variable {flag : Flag}

/-- The arguments read so far with one more flag, set before all others. -/
def Reading.also (r : Reading) (flag : Flag) : Reading := { r with flags := r.flags ++ [flag] }

def Invocation.also (i : Invocation) (flag : Flag) : Invocation :=
  { i with flags := i.flags ++ [flag] }

theorem positional?_also (r : Reading) (argument : String) :
    (r.also flag).positional? argument = (r.positional? argument).map (·.also flag) := by
  obtain ⟨expression, values, declared, flags⟩ := r
  cases expression <;> simp [Reading.positional?, Reading.also, Function.comp_def]

theorem flags_positional? {r next : Reading} {argument : String}
    (reads : r.positional? argument = some next) : next.flags = r.flags := by
  unfold Reading.positional? at reads
  split at reads
  · cases reads
    rfl
  · obtain ⟨value, -, rfl⟩ := Option.map_eq_some_iff.mp reads
    rfl

theorem declare?_also (r : Reading) (value : String) :
    (r.also flag).declare? value = (r.declare? value).map (·.also flag) := by
  obtain ⟨expression, values, declared, flags⟩ := r
  cases declared <;> rfl

theorem flags_declare? {r next : Reading} {value : String}
    (reads : r.declare? value = some next) : next.flags = r.flags := by
  unfold Reading.declare? at reads
  split at reads
  · cases reads
    rfl
  · cases reads

theorem flag?_also {r next : Reading} {name : List Char} (reads : r.flag? name = some next)
    (new : flag ∉ next.flags) : (r.also flag).flag? name = some (next.also flag) := by
  obtain ⟨other, named, reads⟩ := Option.bind_eq_some_iff.mp reads
  split at reads
  · cases reads
  · rename_i unset
    cases reads
    have unset' : other ∉ (r.also flag).flags := by
      intro again
      rcases List.mem_append.mp again with before | added
      · exact unset before
      · exact new (List.mem_singleton.mp added ▸ List.mem_cons_self ..)
    simp only [Reading.flag?, named, Option.bind_some, if_neg unset']
    rfl

theorem request?_also (flag : Flag) {r : Reading} {i : Invocation}
    (asks : r.request? = some (.formula i)) :
    (r.also flag).request? = some (.formula (i.also flag)) ∧ i.flags = r.flags := by
  obtain ⟨expression, written, same⟩ := Option.map_eq_some_iff.mp asks
  cases same
  refine ⟨?_, rfl⟩
  simp only [Reading.request?, Reading.also, written]
  rfl

theorem positionals?_also (r : Reading) (arguments : List String) :
    (r.also flag).positionals? arguments = (r.positionals? arguments).map (·.also flag) := by
  induction arguments generalizing r with
  | nil => rfl
  | cons argument rest ih =>
      simp only [Reading.positionals?, positional?_also]
      cases r.positional? argument with
      | none => rfl
      | some next => exact ih next

theorem flags_positionals? {r next : Reading} {arguments : List String}
    (reads : r.positionals? arguments = some next) : next.flags = r.flags := by
  induction arguments generalizing r with
  | nil =>
      cases reads
      rfl
  | cons argument rest ih =>
      obtain ⟨middle, first, later⟩ := Option.bind_eq_some_iff.mp reads
      rw [ih later, flags_positional? first]

/-- Letters ask for no formula. -/
theorem ofLetters?_ne_formula {letters : List Char} {i : Invocation} :
    Request.ofLetters? letters ≠ some (.formula i) := by
  unfold Request.ofLetters?
  split <;> simp

/-- A flag that is set before the other arguments are read stays set, and they are
read as without it. -/
theorem readFrom_also {r : Reading} {awaiting : Bool} {line : List String} {i : Invocation}
    (asks : readFrom r awaiting line = some (.formula i)) :
    (∀ other ∈ r.flags, other ∈ i.flags) ∧ (flag ∉ i.flags →
      readFrom (r.also flag) awaiting line = some (.formula (i.also flag))) := by
  fun_induction readFrom r awaiting line with
  | case1 => cases asks
  | case2 r awaiting notAwaiting =>
      obtain ⟨also, same⟩ := request?_also flag asks
      rw [same]
      refine ⟨fun _ => id, fun _ => ?_⟩
      simp only [readFrom, notAwaiting, if_false, Bool.false_eq_true, also]
  | case3 r argument rest kind ih =>
      obtain ⟨next, declares, later⟩ := Option.bind_eq_some_iff.mp asks
      obtain ⟨kept, reads⟩ := ih next later
      rw [flags_declare? declares] at kept
      refine ⟨kept, fun new => ?_⟩
      simp only [readFrom, kind, declare?_also, declares, Option.map_some, Option.bind_some,
        reads new]
  | case4 => cases asks
  | case5 r argument rest kind ih =>
      obtain ⟨next, places, later⟩ := Option.bind_eq_some_iff.mp asks
      obtain ⟨kept, reads⟩ := ih next later
      rw [flags_positional? places] at kept
      refine ⟨kept, fun new => ?_⟩
      simp only [readFrom, kind, positional?_also, places, Option.map_some, Option.bind_some,
        reads new]
  | case6 r argument rest kind =>
      obtain ⟨next, places, later⟩ := Option.bind_eq_some_iff.mp asks
      obtain ⟨also, same⟩ := request?_also flag later
      rw [same, flags_positionals? places]
      refine ⟨fun _ => id, fun _ => ?_⟩
      simp only [readFrom, kind, positionals?_also, places, Option.map_some, Option.bind_some, also]
  | case7 => exact absurd asks ofLetters?_ne_formula
  | case8 r argument rest value kind ih =>
      obtain ⟨next, declares, later⟩ := Option.bind_eq_some_iff.mp asks
      obtain ⟨kept, reads⟩ := ih next later
      rw [flags_declare? declares] at kept
      refine ⟨kept, fun new => ?_⟩
      simp only [readFrom, kind, if_true, declare?_also, declares, Option.map_some,
        Option.bind_some, reads new]
  | case9 r argument rest undeclared kind ih =>
      obtain ⟨kept, reads⟩ := ih asks
      have undeclared' : (r.also flag).declared.isNone = true := undeclared
      refine ⟨kept, fun new => ?_⟩
      simp only [readFrom, kind, if_true, undeclared', reads new]
  | case10 => cases asks
  | case11 => cases asks
  | case12 => cases asks
  | case13 => cases asks
  | case14 r argument rest name value kind notVars alone notHelp notVersion ih =>
      obtain ⟨next, sets, later⟩ := Option.bind_eq_some_iff.mp asks
      obtain ⟨kept, reads⟩ := ih next later
      refine ⟨fun other member => kept other ?_, fun new => ?_⟩
      · obtain ⟨added, -, found⟩ := Option.bind_eq_some_iff.mp sets
        split at found
        · cases found
        · cases found
          exact List.mem_cons_of_mem _ member
      · have sets' := flag?_also sets fun member => new (kept flag member)
        simp only [readFrom, kind, if_neg notVars, if_neg alone, if_neg notHelp,
          if_neg notVersion, sets', Option.bind_some, reads new]

theorem Argument.of_option {name : List Char} (some_ : name ≠ []) (plain : '=' ∉ name) :
    Argument.of ('-' :: '-' :: name) = .option name none := by
  obtain ⟨c, cs, rfl⟩ := List.exists_cons_of_ne_nil some_
  have noValue : (c :: cs).dropWhile (· ≠ '=') = [] := by
    rw [List.dropWhile_eq_nil_iff]
    intro d member
    refine decide_eq_true ?_
    rintro rfl
    exact plain member
  simp only [Argument.of, noValue]

/-- The name of a flag is an option without a value, and no other option. -/
theorem option_of_named? {name : List Char} (named : Flag.named? name = some flag) :
    Argument.of ('-' :: '-' :: name) = .option name none ∧ name ≠ "vars".toList ∧
      name ≠ "help".toList ∧ name ≠ "version".toList := by
  have known : ∀ word ∈ ["optimize", "debug-lexer", "debug-postfix", "debug-tree"].map
      String.toList, word ≠ [] ∧ '=' ∉ word ∧ word ≠ "vars".toList ∧ word ≠ "help".toList ∧
        word ≠ "version".toList := by
    decide +kernel
  have member : name ∈ ["optimize", "debug-lexer", "debug-postfix", "debug-tree"].map
      String.toList := by
    unfold Flag.named? at named
    split_ifs at named with first second third fourth
    · exact first ▸ .head _
    · exact second ▸ .tail _ (.head _)
    · exact third ▸ .tail _ (.tail _ (.head _))
    · exact fourth ▸ .tail _ (.tail _ (.tail _ (.head _)))
  obtain ⟨some_, plain, others⟩ := known name member
  exact ⟨Argument.of_option some_ plain, others⟩

/-- A flag in front of a command line is set, if it is not set there already. -/
theorem read?_cons_flag {name : String} {line : List String} {i : Invocation}
    (named : Flag.named? name.toList = some flag) (asks : read? line = some (.formula i))
    (new : flag ∉ i.flags) : read? (("--" ++ name) :: line) = some (.formula (i.also flag)) := by
  have reads := (readFrom_also asks).2 new
  obtain ⟨kind, notVars, notHelp, notVersion⟩ := option_of_named? named
  have written : ("--" ++ name).toList = '-' :: '-' :: name.toList := String.toList_append
  have set : Reading.start.flag? name.toList = some (Reading.start.also flag) := by
    simp only [Reading.flag?, named, Option.bind_some]
    rfl
  simp only [read?, readFrom, written, kind, if_neg notVars, if_neg notHelp, if_neg notVersion,
    set, Option.bind_some, reads, Option.isSome_none, Bool.false_eq_true, if_false]

end Flags

/-! ## What each mode does -/

section Asks

variable {i : Invocation} {line : List String}

theorem run_of_read {request : Request} (reads : read? line = some request) :
    run line = answer request := by
  simp only [run, reads, Option.map_some, Option.getD_some]

theorem Asks.tokens (asks : Asks i .tokens line) : run line = answerLexer i := by
  obtain ⟨flags, reads, mode⟩ := asks
  rw [run_of_read reads]
  unfold Mode.of at mode
  split at mode
  · rename_i shown
    rw [answer, if_pos shown]
    rfl
  · split at mode
    · cases mode
    · split at mode <;> cases mode

theorem Asks.order (asks : Asks i .order line) :
    run line = concluded ((postfixTexts i).map (" ".intercalate ·)) := by
  obtain ⟨flags, reads, mode⟩ := asks
  rw [run_of_read reads]
  unfold Mode.of at mode
  split at mode
  · cases mode
  · rename_i unseen
    split at mode
    · rename_i shown
      have same : postfixTexts { i with flags } = postfixTexts i := rfl
      rw [answer, if_neg unseen, if_pos shown, answerPostfix, same]
      cases postfixTexts i <;> rfl
    · split at mode <;> cases mode

/-- In the last two modes the formula is compiled. -/
theorem run_of_compiles {flags : List Flag} (reads : read? line = some (.formula { i with flags }))
    (mode : Mode.of flags = .tree ∨ Mode.of flags = .value) :
    run line = answerFormula { i with flags } ∧
      (Flag.debugTree ∈ flags ↔ Mode.of flags = .tree) := by
  have noTokens : Flag.debugLexer ∉ flags := by
    intro shown
    simp [Mode.of, shown] at mode
  have noOrder : Flag.debugPostfix ∉ flags := by
    intro shown
    simp [Mode.of, noTokens, shown] at mode
  rw [run_of_read reads, answer, if_neg noTokens, if_neg noOrder]
  refine ⟨rfl, ?_⟩
  simp [Mode.of, noTokens, noOrder]

theorem Asks.tree (asks : Asks i .tree line) :
    ∃ shown : Compiled → Tree, run line = concluded (i.compiled.map (shown · |>.render)) := by
  obtain ⟨flags, reads, mode⟩ := asks
  obtain ⟨ran, shows⟩ := run_of_compiles reads (.inl mode)
  refine ⟨fun c => (if Flag.optimize ∈ flags then c.optimized.1 else c).tree, ?_⟩
  rw [ran, answerFormula, Invocation.compiled]
  cases Compiled.compile i.expression (.text i.declared) .standard with
  | error fault => rfl
  | ok c =>
      simp only [if_pos (shows.mpr mode)]
      rfl

/-- The value does not depend on whether the formula was optimized. -/
theorem Asks.value (asks : Asks i .value line) :
    run line = concluded ((i.compiled.bind fun c =>
      (c.evaluateWith i.values).map Evaluation.value).map Number.display) := by
  obtain ⟨flags, reads, mode⟩ := asks
  obtain ⟨ran, shows⟩ := run_of_compiles reads (.inr mode)
  have unseen : Flag.debugTree ∉ flags := by
    rw [shows, mode]
    decide
  rw [ran, answerFormula, Invocation.compiled]
  cases Compiled.compile i.expression (.text i.declared) .standard with
  | error fault => rfl
  | ok c =>
      have same : ((if Flag.optimize ∈ flags then c.optimized.1 else c).evaluateWith i.values).map
          Evaluation.value = (c.evaluateWith i.values).map Evaluation.value := by
        split
        · exact c.evaluateWith_optimized i.values
        · rfl
      rw [Except.bind, ← same]
      simp only [if_neg unseen]
      split
      · rename_i evaluated
        rw [evaluated]
        rfl
      · rename_i evaluated
        rw [evaluated]
        rfl

/-- Where the tree is not to be seen, only the mode matters. -/
theorem run_of_mode {mode : Mode} {line' : List String} (asks : Asks i mode line)
    (asks' : Asks i mode line') (unseen : mode ≠ .tree) : run line' = run line := by
  cases mode with
  | tokens => rw [asks.tokens, asks'.tokens]
  | order => rw [asks.order, asks'.order]
  | tree => exact absurd rfl unseen
  | value => rw [asks.value, asks'.value]

end Asks

/-! ## Where the modes differ -/

theorem treeOf_of_lex {scope : Scope} {source : List Char} {fault : Fault}
    (failed : (lex scope source).fault = some fault) : treeOf scope source = .error fault := by
  simp only [treeOf, tokenize, failed, bind, Except.bind]

theorem treeOf_of_postfixTexts {i : Invocation} {fault : Fault}
    (failed : postfixTexts i = .error fault) :
    treeOf ⟨i.names, .standard⟩ i.expression.toList = .error fault := by
  simp only [postfixTexts, bind, Except.bind, pure, Except.pure] at failed
  simp only [Invocation.names, treeOf, treeOfTokens, bind, Except.bind]
  split at failed
  · cases failed
    rfl
  · split at failed
    · cases failed
      rfl
    · split at failed
      · cases failed
        rfl
      · cases failed

section Stages

variable {i : Invocation} {line : List String}

/-- What stops the tokens or their order also stops the tree. -/
theorem exit_of_stages (asks : Asks i .tokens line ∨ Asks i .order line) :
    (run line).exit = 0 ∨ ∃ fault : Fault, (run line).exit = 1 ∧
      (run line).code? = some fault.code ∧
      treeOf ⟨i.names, .standard⟩ i.expression.toList = .error fault := by
  rcases asks with asks | asks
  · rw [asks.tokens]
    simp only [answerLexer]
    split
    · rename_i fault failed
      exact .inr ⟨fault, rfl, rfl, treeOf_of_lex failed⟩
    · exact .inl rfl
  · rw [asks.order]
    cases failed : postfixTexts i with
    | ok texts => exact .inl rfl
    | error fault =>
        have stops := treeOf_of_postfixTexts failed
        exact .inr ⟨fault, rfl, rfl, stops⟩

/-- What stops compiling stops the tree and the value. -/
theorem run_of_compile_error {fault : Fault} (failed : i.compiled = .error fault)
    (asks : Asks i .value line ∨ Asks i .tree line) : run line = .failure fault := by
  rcases asks with asks | asks
  · rw [asks.value, failed]
    rfl
  · obtain ⟨shown, ran⟩ := asks.tree
    rw [ran, failed]
    rfl

theorem run_tree_of_compile {c : Compiled} (compiled : i.compiled = .ok c)
    (asks : Asks i .tree line) : (run line).exit = 0 := by
  obtain ⟨shown, ran⟩ := asks.tree
  rw [ran, compiled]
  rfl

/-- A compiled formula has a value when there is one value for each variable. -/
theorem run_value_of_compile {c : Compiled} (compiled : i.compiled = .ok c)
    (asks : Asks i .value line) :
    if i.values.length = i.names.length then (run line).exit = 0
    else (run line).exit = 1 ∧ (run line).code? = some "calculate::evaluation_error" := by
  obtain ⟨-, validated, -, slots, -⟩ := Compiled.compile_eq_ok compiled
  obtain ⟨names, -, -⟩ := Variables.validate_eq_ok validated
  have count : c.slots.length = i.names.length := by
    rw [slots, Compiled.length_zeros, names, Invocation.names]
  rw [asks.value, compiled, ← count]
  simp only [Except.bind, Compiled.evaluateWith_value]
  split
  · rename_i fits
    rw [if_neg (not_not_intro fits)]
    rfl
  · exact ⟨rfl, rfl⟩

/-- Once there is a text and its variables can be declared, what the source gives no
tree for is what compiling fails for. -/
theorem compiled_of_treeOf {fault : Fault} (valid : ∀ name ∈ i.names, isName name = true)
    (distinct : i.names.Nodup) (some_ : i.expression ≠ "")
    (stops : treeOf ⟨i.names, .standard⟩ i.expression.toList = .error fault) :
    i.compiled = .error fault := by
  have validated : Variables.validate (Declaration.text i.declared).toNames =
      .ok (Declaration.text i.declared).toNames := Variables.validate_of_nodup valid distinct
  have tree : i.compiled.map Compiled.tree = treeOf ⟨i.names, .standard⟩ i.expression.toList :=
    Compiled.compile_map_tree validated (by simpa using some_)
  rw [stops] at tree
  cases compiled : i.compiled with
  | ok c =>
      rw [compiled] at tree
      cases tree
  | error fault' =>
      rw [compiled] at tree
      cases tree
      rfl

theorem output_of_concluded {result : Except Fault String}
    (failed : (concluded result).exit = 1) : (concluded result).output = "" := by
  cases result with
  | error fault => rfl
  | ok text => cases failed

/-- A run that fails prints nothing. -/
theorem output_of_exit (failed : (run line).exit = 1) : (run line).output = "" := by
  cases reads : read? line with
  | none =>
      simp only [run, reads] at failed
      cases failed
  | some request =>
      cases request with
      | help =>
          rw [run_of_read reads] at failed
          cases failed
      | version =>
          rw [run_of_read reads] at failed
          cases failed
      | formula i =>
          have asks : Asks i (Mode.of i.flags) line := ⟨i.flags, reads, rfl⟩
          generalize Mode.of i.flags = mode at asks
          cases mode with
          | tokens =>
              rw [asks.tokens]
              simp only [answerLexer]
              split <;> rfl
          | order =>
              rw [asks.order] at failed ⊢
              exact output_of_concluded failed
          | tree =>
              obtain ⟨shown, ran⟩ := asks.tree
              rw [ran] at failed ⊢
              exact output_of_concluded failed
          | value =>
              rw [asks.value] at failed ⊢
              exact output_of_concluded failed

end Stages

/-- Let command lines ask for one formula, with the same values and declaration. To set
`optimize` where the tree is not to be seen changes nothing about a run. A value is
printed exactly where the tree is and there are as many values as variables, and where
only their number is wrong the fault says so. Where a value is printed, the tokens are
shown, and so is their order; and if the names can be declared and there is a text, what
stops these two stops the tree and the value as well, with the same code. No run that
fails prints anything. -/
theorem modes_agree (i : Invocation) :
    (∀ line line' flags flags', read? line = some (.formula { i with flags }) →
        read? line' = some (.formula { i with flags := flags' }) → .debugTree ∉ flags →
        (∀ flag, flag ∈ flags' ↔ flag = .optimize ∨ flag ∈ flags) → run line' = run line) ∧
      (∀ value tree, Asks i .value value → Asks i .tree tree →
        ((run value).exit = 0 ↔ (run tree).exit = 0 ∧ i.values.length = i.names.length) ∧
          ((run tree).exit = 0 → i.values.length ≠ i.names.length →
            (run value).exit = 1 ∧ (run value).code? = some "calculate::evaluation_error")) ∧
      (∀ value stage, Asks i .value value → Asks i .tokens stage ∨ Asks i .order stage →
        (run value).exit = 0 → (run stage).exit = 0) ∧
      ((∀ name ∈ i.names, isName name = true) → i.names.Nodup → i.expression ≠ "" →
        ∀ stage later, Asks i .tokens stage ∨ Asks i .order stage →
          Asks i .value later ∨ Asks i .tree later → (run stage).exit = 1 →
          ∃ code, (run stage).code? = some code ∧ (run later).exit = 1 ∧
            (run later).code? = some code) ∧
      ∀ line, (run line).exit = 1 → (run line).output = "" := by
  refine ⟨?optimize, ?tree, ?stages, ?codes, fun line => output_of_exit⟩
  case optimize =>
    intro line line' flags flags' reads reads' unseen same
    have others : ∀ flag, flag ≠ .optimize → (flag ∈ flags' ↔ flag ∈ flags) := fun flag other => by
      simp [same, other]
    have mode : Mode.of flags' = Mode.of flags := by
      simp only [Mode.of, others .debugLexer (by decide), others .debugPostfix (by decide),
        others .debugTree (by decide)]
    refine run_of_mode ⟨flags, reads, rfl⟩ ⟨flags', reads', mode⟩ fun shows => unseen ?_
    exact (run_of_compiles reads (.inl shows)).2.mpr shows
  case tree =>
    intro value tree asksValue asksTree
    cases compiled : i.compiled with
    | error fault =>
        rw [run_of_compile_error compiled (.inl asksValue),
          run_of_compile_error compiled (.inr asksTree)]
        simp [Outcome.failure]
    | ok c =>
        have shown := run_tree_of_compile compiled asksTree
        have evaluated := run_value_of_compile compiled asksValue
        split at evaluated <;> simp_all
  case stages =>
    intro value stage asksValue asksStage printed
    rcases exit_of_stages asksStage with shown | ⟨fault, -, -, stops⟩
    · exact shown
    · cases compiled : i.compiled with
      | error fault =>
          rw [run_of_compile_error compiled (.inl asksValue)] at printed
          cases printed
      | ok c =>
          obtain ⟨-, validated, built, -⟩ := Compiled.compile_eq_ok compiled
          have names : c.names = i.names := (Variables.validate_eq_ok validated).1
          rw [names, stops] at built
          cases built
  case codes =>
    intro valid distinct some_ stage later asksStage asksLater failed
    rcases exit_of_stages asksStage with shown | ⟨fault, -, code, stops⟩
    · rw [shown] at failed
      cases failed
    · have ran := run_of_compile_error (compiled_of_treeOf valid distinct some_ stops) asksLater
      exact ⟨fault.code, code, by rw [ran]; rfl, by rw [ran]; rfl⟩

/-- Without a value for its variable, `2 * x` has a tree and no value, optimized or not. -/
theorem modes_agree_unvalued :
    let i : Invocation := ⟨"2 * x", [], "x", []⟩
    let value := ["2 * x", "--vars", "x"]
    let tree := ("--" ++ "debug-tree") :: value
    let optimized := ("--" ++ "optimize") :: value
    Asks i .value value ∧ Asks i .tree tree ∧ (run tree).exit = 0 ∧ (run value).exit = 1 ∧
      (run value).code? = some "calculate::evaluation_error" ∧ run optimized = run value := by
  intro i value tree optimized
  have reads : read? value = some (.formula i) := rfl
  have readsTree : read? tree = some (.formula { i with flags := [.debugTree] }) :=
    read?_cons_flag (by decide +kernel) reads List.not_mem_nil
  have readsOptimized : read? optimized = some (.formula { i with flags := [.optimize] }) :=
    read?_cons_flag (by decide +kernel) reads List.not_mem_nil
  have asks : Asks i .value value := ⟨[], reads, rfl⟩
  have asksTree : Asks i .tree tree := ⟨[.debugTree], readsTree, rfl⟩
  have shown : (run tree).exit = 0 := by decide +kernel
  obtain ⟨optimize, same, -⟩ := modes_agree i
  obtain ⟨failed, code⟩ := (same value tree asks asksTree).2 shown (by decide +kernel)
  refine ⟨asks, asksTree, shown, failed, code, ?_⟩
  exact optimize value optimized [] [.optimize] reads readsOptimized (by simp) (by simp)

end Formula.CommandLine
