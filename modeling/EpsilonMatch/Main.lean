import EpsilonMatch.CommandLine
/-!
# EpsilonMatch.Main

The program: prints the report of `EpsilonMatch.CommandLine.run`, and throws what
escaped from it.
-/

/-- Runs the command line. -/
def main (args : List String) : IO UInt32 := do
  let report := EpsilonMatch.CommandLine.run args
  (← IO.getStdout).putStr report.stdout
  (← IO.getStderr).putStr report.stderr
  match report.escaped with
  | some e => throw (IO.userError e.message)
  | none => return report.exitCode.toUInt32
