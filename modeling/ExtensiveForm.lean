import ExtensiveForm.Draws
import ExtensiveForm.Main
import ExtensiveForm.Proofs.Exploration.Visit
import ExtensiveForm.Proofs.Games.Conversion
import ExtensiveForm.Proofs.SequenceForm.Gap
import ExtensiveForm.Proofs.SequenceForm.Guarded
import ExtensiveForm.Proofs.SequenceForm.Loaded
import ExtensiveForm.Proofs.SequenceForm.Mirror
import ExtensiveForm.Proofs.SequenceForm.Reordering
import ExtensiveForm.Proofs.Exploration.Rescale
import ExtensiveForm.Proofs.SequenceForm.Rescale
import ExtensiveForm.Proofs.Exploration.Cycles
import ExtensiveForm.Proofs.Json.Number
import ExtensiveForm.Proofs.Json.Strings
import ExtensiveForm.Proofs.Json.Decoding
import ExtensiveForm.Proofs.SequenceForm.Saved
import ExtensiveForm.Proofs.SequenceForm.Reloaded
import ExtensiveForm.Proofs.SequenceForm.Words
import ExtensiveForm.Proofs.CommandLine.Files
import ExtensiveForm.Proofs.Exploration.Sums
import ExtensiveForm.Proofs.CommandLine.Saving
import ExtensiveForm.Proofs.SequenceTree.Outcome
import ExtensiveForm.Proofs.SequenceTree.Plans
import ExtensiveForm.Proofs.CommandLine.Verb
import ExtensiveForm.Proofs.CommandLine.Effects
import ExtensiveForm.Proofs.Registry.Records
import ExtensiveForm.Proofs.PayoffMatrix.Enumeration
import ExtensiveForm.Proofs.Expectation
import ExtensiveForm.Proofs.PayoffMatrix.Cells
import ExtensiveForm.Proofs.SequenceForm.Rules
import ExtensiveForm.Proofs.SequenceTree.Interior
import ExtensiveForm.Proofs.Games.Goofspiel.Symmetry
import ExtensiveForm.Proofs.Games.Goofspiel.Rounds
import ExtensiveForm.Proofs.Games.Leduc.Cards
import ExtensiveForm.Proofs.Games.Leduc.Betting
import ExtensiveForm.Proofs.Games.LiarsDice.Auction
import ExtensiveForm.Proofs.Games.LiarsDice.Rolls
import ExtensiveForm.Proofs.Registry.Visits
import ExtensiveForm.Proofs.Exploration.Invariant
