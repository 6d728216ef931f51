import Viewflow.Compile
import Viewflow.Flow.Sketch
import Viewflow.Json.Reader
import Viewflow.Proofs.Appending
import Viewflow.Proofs.Binning
import Viewflow.Proofs.Columns
import Viewflow.Proofs.Driving
import Viewflow.Proofs.Encodings
import Viewflow.Proofs.Expressions.Tests
import Viewflow.Proofs.Failures.Compiled
import Viewflow.Proofs.Naming
import Viewflow.Proofs.Operands.Calls
import Viewflow.Proofs.Operands.Written
import Viewflow.Proofs.Passes.Coerced
import Viewflow.Proofs.Passes.Fixpoint
import Viewflow.Proofs.Passes.Needed
import Viewflow.Proofs.Passes.Stuck
import Viewflow.Proofs.Passes.Unified
import Viewflow.Proofs.Reachable
import Viewflow.Proofs.Referring
import Viewflow.Proofs.Rewriting
import Viewflow.Proofs.Selections.Enclosed
import Viewflow.Proofs.Selections.Independent
import Viewflow.Proofs.Selections.Streams
import Viewflow.Proofs.Settling
import Viewflow.Proofs.Signals
import Viewflow.Proofs.Sourcing
import Viewflow.Proofs.Steps.Guarded
import Viewflow.Proofs.Text.Flattened
import Viewflow.Proofs.Text.Paths
import Viewflow.Proofs.Walking
