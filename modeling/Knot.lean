import Knot.Definition
import Knot.Expr.Shorthand
import Knot.Timing
import Knot.Value.Range
import Knot.Workload
import Knot.Proofs.Builders
import Knot.Proofs.Building
import Knot.Proofs.Compilation
import Knot.Proofs.Endings
import Knot.Proofs.Evaluation
import Knot.Proofs.FirstOrder.Bodies
import Knot.Proofs.FirstOrder.Build
import Knot.Proofs.FirstOrder.Functions
import Knot.Proofs.FirstOrder.Sessions
import Knot.Proofs.ScalarSoundness
import Knot.Proofs.Obstacles
import Knot.Proofs.Shedding.Blocks
import Knot.Proofs.Shedding.Trees
import Knot.Proofs.Shedding.Reduction
import Knot.Proofs.Marks
import Knot.Proofs.Generations
import Knot.Proofs.Jumps.Evaluation
import Knot.Proofs.Jumps.Calls
import Knot.Proofs.Renaming.Frames
import Knot.Proofs.Renaming.Runs
import Knot.Proofs.Renaming.Evaluation
import Knot.Proofs.Renaming.Substitution
import Knot.Proofs.Binding.Calls
import Knot.Proofs.Curried.Sessions
import Knot.Proofs.Splitting
import Knot.Proofs.Caching.Repeats
import Knot.Proofs.FirstOrder.Computations
import Knot.Proofs.Transparency.Sequences
import Knot.Proofs.NormalForms.InferredTypes
import Knot.Proofs.Accounts
import Knot.Proofs.Slots
import Knot.Proofs.SplitEvents
import Knot.Proofs.TwosComplement
import Knot.Proofs.Vetting
import Knot.Proofs.Integers.Division
import Knot.Proofs.Integers.Conversion
import Knot.Proofs.Caching.Statistics
import Knot.Proofs.Flattening
import Knot.Proofs.Isolation.Sessions
import Knot.Proofs.Assignment
import Knot.Proofs.Caching.Refusals
import Knot.Proofs.DefaultPool
