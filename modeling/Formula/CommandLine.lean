/-
# Formula.CommandLine — formulas from the command line

The first positional argument is the formula, the others are the values of its
variables. Options may stand anywhere before `--`. `read?` turns arguments into
a request, `answer` carries it out; both are pure, and the exit code, the
output and the fault are all in the `Outcome`.
-/
import Formula.Compiled
import Formula.Registry.Standard

namespace Formula.CommandLine

set_option autoImplicit false

/-! ## Arguments -/

/-- An option without a value. -/
inductive Flag where
  | optimize
  | debugLexer
  | debugPostfix
  | debugTree
deriving DecidableEq, Repr

/-- The flag of a name. -/
def Flag.named? (name : List Char) : Option Flag :=
  if name = "optimize".toList then some .optimize
  else if name = "debug-lexer".toList then some .debugLexer
  else if name = "debug-postfix".toList then some .debugPostfix
  else if name = "debug-tree".toList then some .debugTree
  else none

/-- What to do with a formula: its text, the values and the declaration of its
variables, and the flags that are set. -/
structure Invocation where
  expression : String
  values : List Float
  declared : String
  flags : List Flag

/-- What the arguments ask for. -/
inductive Request where
  | help
  | version
  | formula (invocation : Invocation)

/-- The arguments read so far. -/
structure Reading where
  expression : Option String
  values : List Float
  declared : Option String
  flags : List Flag

namespace Reading

/-- No arguments yet. -/
def start : Reading := ⟨none, [], none, []⟩

/-- A positional argument: the formula, then values. -/
def positional? (r : Reading) (argument : String) : Option Reading :=
  match r.expression with
  | none => some { r with expression := some argument }
  | some _ =>
    (Number.read? argument.toList).map fun value => { r with values := r.values ++ [value] }

/-- Several positional arguments. -/
def positionals? (r : Reading) : List String → Option Reading
  | [] => some r
  | argument :: rest => (r.positional? argument).bind fun r => r.positionals? rest

/-- The declaration of variables, given at most once. -/
def declare? (r : Reading) (value : String) : Option Reading :=
  if r.declared.isNone then some { r with declared := some value } else none

/-- An option without a value, given at most once. -/
def flag? (r : Reading) (name : List Char) : Option Reading :=
  (Flag.named? name).bind fun flag =>
    if flag ∈ r.flags then none else some { r with flags := flag :: r.flags }

/-- What was read, once there is a formula. -/
def request? (r : Reading) : Option Request :=
  r.expression.map fun expression =>
    .formula ⟨expression, r.values, r.declared.getD "", r.flags⟩

end Reading

/-- Digits, with a point after the first character and an exponent that is not
empty, as they may follow the minus of a negative number. -/
def isPlainNumber (cs : List Char) : Bool :=
  let afterWhole := cs.dropWhile Char.isDigit
  let afterFraction :=
    match afterWhole with
    | '.' :: rest => rest.dropWhile Char.isDigit
    | rest => rest
  let startsWithDigit := (cs.head?.map Char.isDigit).getD false
  startsWithDigit &&
    match afterFraction with
    | [] => true
    | c :: digits => (c == 'e' || c == 'E') && !digits.isEmpty && digits.all Char.isDigit

/-- How an argument reads before `--`. -/
inductive Argument where
  | endOfOptions
  | option (name : List Char) (value : Option String)
  | letters (letters : List Char)
  | positional

/-- Two hyphens start an option, whose value may follow an equals sign; one
hyphen starts option letters, unless it is alone or the minus of a number. -/
def Argument.of (argument : List Char) : Argument :=
  match argument with
  | ['-', '-'] => .endOfOptions
  | '-' :: '-' :: text =>
    match text.dropWhile (· ≠ '=') with
    | _ :: value => .option (text.takeWhile (· ≠ '=')) (some (String.ofList value))
    | [] => .option text none
  | ['-'] => .positional
  | '-' :: text => if isPlainNumber text then .positional else .letters text
  | _ => .positional

/-- What the first of some option letters asks for. -/
def Request.ofLetters? (letters : List Char) : Option Request :=
  match letters.head? with
  | some 'h' => some .help
  | some 'V' => some .version
  | _ => none

/-- Read arguments from left to right. An option that lacks its value takes the
next argument if that is a positional one. Help and the version are given at once. -/
def readFrom (r : Reading) (awaiting : Bool) : List String → Option Request
  | [] => if awaiting then none else r.request?
  | argument :: rest =>
    match Argument.of argument.toList, awaiting with
    | .positional, true => (r.declare? argument).bind fun r => readFrom r false rest
    | _, true => none
    | .positional, false => (r.positional? argument).bind fun r => readFrom r false rest
    | .endOfOptions, false => (r.positionals? rest).bind Reading.request?
    | .letters letters, false => Request.ofLetters? letters
    | .option name value, false =>
      if name = "vars".toList then
        match value with
        | some value => (r.declare? value).bind fun r => readFrom r false rest
        | none => if r.declared.isNone then readFrom r true rest else none
      else if value.isSome then none
      else if name = "help".toList then some .help
      else if name = "version".toList then some .version
      else (r.flag? name).bind fun r => readFrom r false rest

/-- What the arguments ask for, if they make sense. -/
def read? (arguments : List String) : Option Request := readFrom .start false arguments

/-! ## Answers -/

/-- What a run leaves behind: its exit code, its output, remarks for the user,
and the fault that ended it. -/
structure Outcome where
  exit : Nat
  output : String
  remarks : List String
  fault : Option Fault

namespace Outcome

/-- A successful run. -/
def success (output : String) : Outcome := ⟨0, output, [], none⟩

/-- A run that a fault ended. -/
def failure (fault : Fault) : Outcome := ⟨1, "", [], some fault⟩

/-- Arguments that make no sense. -/
def misuse : Outcome := ⟨2, "", [], none⟩

end Outcome

/-- The token as the lexer's debugging shows it. -/
def remark (t : Token) : String :=
  t.meaning.describe ++ " at " ++ toString t.span.start ++ ".." ++ toString t.span.stop

/-- Show the tokens and stop at the first fault. -/
def answerLexer (i : Invocation) : Outcome :=
  let lexed := lex ⟨(Declaration.text i.declared).toNames, .standard⟩ i.expression.toList
  match lexed.fault with
  | some fault => { Outcome.failure fault with remarks := lexed.tokens.map remark }
  | none => { Outcome.success "" with remarks := lexed.tokens.map remark }

/-- The texts of the tokens of a formula in postfix order. -/
def postfixTexts (i : Invocation) : Except Fault (List String) := do
  let source := i.expression.toList
  let tokens ← tokenize ⟨(Declaration.text i.declared).toNames, .standard⟩ source
  let infixTokens ← Infix.check tokens
  let postfixTokens ← toPostfix infixTokens
  return postfixTokens.map fun t => String.ofList (t.text source)

/-- Print the postfix form. -/
def answerPostfix (i : Invocation) : Outcome :=
  match postfixTexts i with
  | .error fault => .failure fault
  | .ok texts => .success (" ".intercalate texts ++ "\n")

/-- Compile, and print the tree or the value. -/
def answerFormula (i : Invocation) : Outcome :=
  match Compiled.compile i.expression (.text i.declared) .standard with
  | .error fault => .failure fault
  | .ok formula =>
    let formula := if Flag.optimize ∈ i.flags then formula.optimized.1 else formula
    if Flag.debugTree ∈ i.flags then .success (formula.tree.render ++ "\n")
    else
      match formula.evaluateWith i.values with
      | .error fault => .failure fault
      | .ok result => .success (Number.display result.value ++ "\n")

/-- What the arguments mean, for a user who asks. -/
def helpText : String := "\n".intercalate [
  "Usage: calculate [OPTIONS] <EXPRESSION> [VALUES]...",
  "",
  "Arguments:",
  "  <EXPRESSION>  The expression to evaluate, e.g. \"2 * sin(x) + 1\"",
  "  [VALUES]...   One value per declared variable, in declaration order",
  "",
  "Options:",
  "      --vars <VARS>    Comma-separated variable names, e.g. \"x, y\" [default: ]",
  "      --optimize       Fold constant subexpressions once, before evaluating. " ++
    "Only safe when every function is pure",
  "      --debug-lexer    Debug the lexer, printing out each token. " ++
    "Does not evaluate the expression",
  "      --debug-postfix  Debug the converter, printing out the postfix form. " ++
    "Does not evaluate the expression",
  "      --debug-tree     Debug the compiler, printing out the tree (folded with --optimize). " ++
    "Does not evaluate the expression",
  "  -h, --help           Print help",
  "  -V, --version        Print version",
  ""]

/-- Carry out a request. -/
def answer : Request → Outcome
  | .help => .success helpText
  | .version => .success "calculate 0.1.0\n"
  | .formula i =>
    if Flag.debugLexer ∈ i.flags then answerLexer i
    else if Flag.debugPostfix ∈ i.flags then answerPostfix i
    else answerFormula i

/-- A whole run. -/
def run (arguments : List String) : Outcome := ((read? arguments).map answer).getD .misuse

end Formula.CommandLine
