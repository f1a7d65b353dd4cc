import EpsilonMatch.Main
import EpsilonMatch.Proofs.Pattern.Alternation
import EpsilonMatch.Record.Binary64
import EpsilonMatch.Record.Schema
import EpsilonMatch.Workspace
import EpsilonMatch.Proofs.Automaton.Viability
import EpsilonMatch.Proofs.Pattern.Trim
import EpsilonMatch.Proofs.Graph.History
import EpsilonMatch.Proofs.Pattern.Enclosure
import EpsilonMatch.Proofs.CommandLine
import EpsilonMatch.Proofs.Graph.Reachability
import EpsilonMatch.Proofs.Automaton.Outcome
import EpsilonMatch.Proofs.Pattern.Diagnosis
import EpsilonMatch.Proofs.Pattern.Pairing
import EpsilonMatch.Proofs.Pattern.Rows
import EpsilonMatch.Proofs.Graph.Cost
import EpsilonMatch.Proofs.Automaton.Cost
import EpsilonMatch.Proofs.Automaton.Letters
import EpsilonMatch.Proofs.Pattern.Letters
import EpsilonMatch.Proofs.Pattern.Closing
import EpsilonMatch.Proofs.Pattern.Reuse
import EpsilonMatch.Proofs.Graph.Validation
import EpsilonMatch.Proofs.Automaton.Listing
import EpsilonMatch.Proofs.Pattern.ClosingEffect
import EpsilonMatch.Proofs.Workspace
