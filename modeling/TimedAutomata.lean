import TimedAutomata.Arbiter.Basic
import TimedAutomata.Automaton.Basic
import TimedAutomata.Automaton.Printer
import TimedAutomata.Clause.Basic
import TimedAutomata.Clause.Reader
import TimedAutomata.CommandLine.Files
import TimedAutomata.CommandLine.Options
import TimedAutomata.CommandLine.Run
import TimedAutomata.Compilation.Basic
import TimedAutomata.Compilation.Journal
import TimedAutomata.Config.Basic
import TimedAutomata.Config.Reader
import TimedAutomata.Declaration
import TimedAutomata.Diagnostic.Basic
import TimedAutomata.Diagnostic.Ink
import TimedAutomata.Diagnostic.Snippet
import TimedAutomata.Diagnostic.Source
import TimedAutomata.Generation.File
import TimedAutomata.Generation.Names
import TimedAutomata.Generation.Recovery
import TimedAutomata.Generation.Tree
import TimedAutomata.Generation.Worker
import TimedAutomata.Grammar.Attempt
import TimedAutomata.Grammar.Expression
import TimedAutomata.Grammar.Lexeme
import TimedAutomata.Grammar.Rules
import TimedAutomata.Guard.Basic
import TimedAutomata.Guard.Printer
import TimedAutomata.Guard.Reader
import TimedAutomata.Journal
import TimedAutomata.Main
import TimedAutomata.Network.Journal
import TimedAutomata.Network.Reader
import TimedAutomata.Policy.Basic
import TimedAutomata.Policy.Journal
import TimedAutomata.Program.Basic
import TimedAutomata.Random.Keystream
import TimedAutomata.Random.Source
import TimedAutomata.Sequence
import TimedAutomata.Simulation.Basic
import TimedAutomata.Text.Blank
import TimedAutomata.Text.Bytes
import TimedAutomata.Text.Lines
import TimedAutomata.Text.Terminal
import TimedAutomata.Text.Width
import TimedAutomata.Topology.Basic
import TimedAutomata.Topology.Resolver
import TimedAutomata.Yaml.Cursor
import TimedAutomata.Yaml.Decode
import TimedAutomata.Yaml.Document
import TimedAutomata.Yaml.Node
import TimedAutomata.Yaml.Scalar
import TimedAutomata.Yaml.Token
import TimedAutomata.Proofs.Guard.Grammar
import TimedAutomata.Proofs.Fallible
import TimedAutomata.Proofs.Guard.Completeness
import TimedAutomata.Proofs.Guard.Soundness
import TimedAutomata.Proofs.Guard.Unambiguity
import TimedAutomata.Proofs.Blank
import TimedAutomata.Proofs.Guard.Reading
import TimedAutomata.Proofs.Guard.Printing
import TimedAutomata.Proofs.Automaton.Growth
import TimedAutomata.Proofs.Notation.Clauses
import TimedAutomata.Proofs.Notation.Scanning
import TimedAutomata.Proofs.Notation.Reading
import TimedAutomata.Proofs.Notation.RoundTrip
import TimedAutomata.Proofs.Compilation.Analysis
import TimedAutomata.Proofs.Arbiter.Decision
import TimedAutomata.Proofs.Arbiter.Priority
import TimedAutomata.Proofs.Generation.Meaning
import TimedAutomata.Proofs.Generation.Evaluation
import TimedAutomata.Proofs.Generation.Choice
import TimedAutomata.Proofs.Generation.Comments
import TimedAutomata.Proofs.Simulation.Moves
import TimedAutomata.Proofs.Generation.Naming
import TimedAutomata.Proofs.Generation.Refinement
import TimedAutomata.Proofs.Generation.Interleaving
import TimedAutomata.Proofs.Topology.Channels
import TimedAutomata.Proofs.Automaton.Discovery
import TimedAutomata.Proofs.Notation.Cutting
import TimedAutomata.Proofs.Notation.Spelling
import TimedAutomata.Proofs.Notation.Acceptance
import TimedAutomata.Proofs.Generation.Notes
import TimedAutomata.Proofs.Generation.Silence
import TimedAutomata.Proofs.Generation.Recovery
import TimedAutomata.Proofs.Simulation.Moments
import TimedAutomata.Proofs.Simulation.Runs
import TimedAutomata.Proofs.Simulation.Checked
import TimedAutomata.Proofs.Notation.Shifting
import TimedAutomata.Proofs.Simulation.Conservation
import TimedAutomata.Proofs.Simulation.Progress
import TimedAutomata.Proofs.Simulation.TimedRuns
import TimedAutomata.Proofs.Notation.Joining
import TimedAutomata.Proofs.Notation.Locations
import TimedAutomata.Proofs.Policy.Settlement
import TimedAutomata.Proofs.Compilation.Union
import TimedAutomata.Proofs.Simulation.Subsystems
import TimedAutomata.Proofs.Policy.Acceptance
import TimedAutomata.Proofs.Topology.Unmatched
import TimedAutomata.Proofs.Topology.Ambiguity
import TimedAutomata.Proofs.Generation.Collisions
import TimedAutomata.Proofs.Generation.Identifiers
import TimedAutomata.Proofs.Arbiter.Fairness
import TimedAutomata.Proofs.Automaton.Histories
import TimedAutomata.Proofs.Simulation.Halting
import TimedAutomata.Proofs.Generation.Outline
import TimedAutomata.Proofs.Generation.Switches
import TimedAutomata.Proofs.Simulation.Seeds
import TimedAutomata.Proofs.Notation.Tiling
import TimedAutomata.Proofs.Compilation.Reporting
import TimedAutomata.Proofs.Grammar.ClauseRules
