import InteropGen.Main
import InteropGen.Scribe
import InteropGen.Proofs.Acceptance
import InteropGen.Proofs.ArrayNodes
import InteropGen.Proofs.Arrays.Allocation
import InteropGen.Proofs.Blocks.Closed
import InteropGen.Proofs.Counts.Printed
import InteropGen.Proofs.Counts.Structs
import InteropGen.Proofs.Decimals.Extended
import InteropGen.Proofs.ElementCounts
import InteropGen.Proofs.Graph.Texts
import InteropGen.Proofs.Literals.Constants
import InteropGen.Proofs.Literals.NewLines
import InteropGen.Proofs.Names.Declared
import InteropGen.Proofs.Names.Lexemes
import InteropGen.Proofs.OutputRuns
import InteropGen.Proofs.Printing.Grouped
import InteropGen.Proofs.Reading.Positions
import InteropGen.Proofs.Rejection.Reported
import InteropGen.Proofs.Scopes.Methods
import InteropGen.Proofs.Sequences.Runs
import InteropGen.Proofs.Splicing
import InteropGen.Proofs.Targets.Diagnostics
import InteropGen.Proofs.Targets.Layouts
import InteropGen.Proofs.Targets.Platforms
import InteropGen.Proofs.Transfer.Dangling
import InteropGen.Proofs.Transfer.RoundTrip
import InteropGen.Proofs.Typedefs.Transparent
import InteropGen.Proofs.Wire.RoundTrip
import InteropGen.Proofs.Writing.Agreement
import InteropGen.Proofs.Writing.Runs
