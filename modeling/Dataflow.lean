import Dataflow.Main
import Dataflow.Proofs.Runs
import Dataflow.Proofs.Outcomes
import Dataflow.Proofs.Outputs
import Dataflow.Proofs.Modes
import Dataflow.Proofs.Reordered
import Dataflow.Proofs.Sorted
import Dataflow.Proofs.Cycles
import Dataflow.Proofs.Dependents
import Dataflow.Proofs.Layers
import Dataflow.Proofs.Contexts
import Dataflow.Proofs.Batch
import Dataflow.Proofs.Artifacts
import Dataflow.Proofs.Interned
import Dataflow.Proofs.LeastClosure
import Dataflow.Proofs.Neighbours
import Dataflow.Proofs.Integers
