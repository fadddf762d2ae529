import Abacus.Main
import Abacus.Tour
import Abacus.Proofs.Evaluation
import Abacus.Proofs.Parsing
import Abacus.Proofs.Remainders
import Abacus.Proofs.Decoding
import Abacus.Proofs.Height
import Abacus.Proofs.DepthLimit
import Abacus.Proofs.ParseFaults
import Abacus.Proofs.SourceErrors
import Abacus.Proofs.Composition
import Abacus.Proofs.ScanFaults
import Abacus.Proofs.Integers
import Abacus.Proofs.Results
import Abacus.Proofs.FirstFault
import Abacus.Proofs.Names
import Abacus.Proofs.Observing
import Abacus.Proofs.LastErrors
import Abacus.Proofs.Concatenation
import Abacus.Proofs.Legibility
import Abacus.Proofs.Anchors
import Abacus.Proofs.Carets
import Abacus.Proofs.Listings
import Abacus.Proofs.Commands
import Abacus.Proofs.Offsets
import Abacus.Proofs.Layouts
import Abacus.Proofs.Magnitudes
import Abacus.Proofs.Overflow
import Abacus.Proofs.StackBalance
import Abacus.Proofs.Finiteness
import Abacus.Proofs.Climbing
import Abacus.Proofs.Lookalikes
import Abacus.Proofs.Cursor
import Abacus.Proofs.Culprits
import Abacus.Proofs.IntegerDivision
import Abacus.Proofs.TreeListings
import Abacus.Proofs.CodeListings
import Abacus.Proofs.HiddenSources
