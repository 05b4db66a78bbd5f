/-
# Formula.Main — the program

Output goes to standard output; remarks and faults go to standard error.
-/
import Formula.CommandLine

namespace Formula.CommandLine

/-- The lines that tell a user what is wrong and where. -/
def faultLines (fault : Fault) : List String :=
  [fault.code, "error: " ++ fault.message] ++
    fault.labels.map (fun label => "  at byte " ++ toString label.start ++ ": " ++ label.text) ++
    fault.help?.toList.map ("  help: " ++ ·)

/-- The reminder after arguments that make no sense. -/
def usage : String := "usage: calculate [OPTIONS] <EXPRESSION> [VALUES]..."

end Formula.CommandLine

open Formula.CommandLine in
def main (arguments : List String) : IO UInt32 := do
  let outcome := run arguments
  for line in outcome.remarks do IO.eprintln line
  for fault in outcome.fault.toList do
    for line in faultLines fault do IO.eprintln line
  if outcome.exit = 2 then IO.eprintln usage
  IO.print outcome.output
  return outcome.exit.toUInt32
