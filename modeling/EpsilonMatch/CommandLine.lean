import EpsilonMatch.Automaton.Simulation
import EpsilonMatch.Pattern.Compiler
/-!
# EpsilonMatch.CommandLine

What the program prints for its arguments, as a function.

A pattern given on the command line is put into a group of its own, so that it
may hold a `|` at its top level. With a pattern alone the automaton is listed;
a second argument is the text to match, and further ones are ignored. Without
arguments a fixed pattern is matched with a fixed text.

The program reports what is wrong with a pattern or with a text. It does not
handle any other error; such an error would escape and end the run.
-/

namespace EpsilonMatch.CommandLine

/-- An error that ends a program run. -/
inductive Failure
  | compile (e : CompileError)
  | matching (e : MatchError)
  deriving Repr, DecidableEq

/-- The wording of a failure. -/
def Failure.message : Failure → String
  | compile e => e.message
  | matching e => e.message

/-- The outcome of a program run. -/
structure Report where
  exitCode : Nat
  stdout : String
  /-- What the program itself writes; the words for an error that escapes are not
  its own. -/
  stderr : String
  /-- The error that escaped from the program. -/
  escaped : Option Failure := none
  deriving Repr, DecidableEq

/-- The pattern of a run without arguments. -/
def demoPattern : String := "(aa*b)"

/-- The text of a run without arguments. -/
def demoText : String := "aaaab"

/-- A pattern in a group of its own. -/
def enclose (pattern : List Char) : List Char :=
  '(' :: pattern ++ [')']

/-- The report of a run that printed `stdout`. -/
def Report.success (stdout : String) : Report :=
  { exitCode := 0, stdout, stderr := "" }

/-- The report of a run that failed. -/
def Report.failure (message : String) : Report :=
  { exitCode := 1, stdout := "", stderr := "Error: " ++ message ++ "\n" }

/-- The report of a run that an error ended before anything was printed. Only a fault of
the pattern and an operator in the text are handled. -/
def Report.ofFailure (e : Failure) : Report :=
  match e with
  | .compile (.pattern _) | .matching (.metacharacter _ _) => .failure e.message
  | _ => { exitCode := 1, stdout := "", stderr := "", escaped := some e }

/-- A verdict as it is printed. -/
def verdictText : Bool → String
  | true => "True\n"
  | false => "False\n"

/-- Matches a text with a pattern. -/
def matchReport (pattern text : List Char) : Report :=
  match compile pattern with
  | .error e => .ofFailure (.compile e)
  | .ok a =>
    match a.accepts text with
    | .error e => .ofFailure (.matching e)
    | .ok verdict => .success (verdictText verdict)

/-- Lists the automaton of a pattern. -/
def listingReport (pattern : List Char) : Report :=
  match compile pattern with
  | .error e => .ofFailure (.compile e)
  | .ok a =>
    match a.listing.failure with
    | some e => { Report.ofFailure (.matching e) with stdout := a.listing.text }
    | none => .success a.listing.text

/-- The outcome of a run with the given arguments. -/
def run : List String → Report
  | [] => matchReport demoPattern.toList demoText.toList
  | [pattern] => listingReport (enclose pattern.toList)
  | pattern :: text :: _ => matchReport (enclose pattern.toList) text.toList

end EpsilonMatch.CommandLine
