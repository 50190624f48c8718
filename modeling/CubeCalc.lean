import CubeCalc.Calc.Dump
import CubeCalc.Calc.Evaluate
import CubeCalc.Calc.Plan
import CubeCalc.Cell.Json
import CubeCalc.Exp.Compile
import CubeCalc.Exp.Json
import CubeCalc.Hierarchy.Builder
import CubeCalc.Proofs.ListRefinement
import CubeCalc.Proofs.RowBound
import CubeCalc.Proofs.Simplification
import CubeCalc.Tuple.Lazy
import CubeCalc.Tuple.Sort
import CubeCalc.Value.Dump
import CubeCalc.Proofs.Cursor
import CubeCalc.Proofs.Evaluators
import CubeCalc.Proofs.Tallies
import CubeCalc.Proofs.WholeNumbers
import CubeCalc.Proofs.Iteration
import CubeCalc.Proofs.CrossJoin
import CubeCalc.Proofs.JoinTree
import CubeCalc.Proofs.RollUp
import CubeCalc.Proofs.TypeSoundness
import CubeCalc.Proofs.MemberSet
import CubeCalc.Proofs.NonEmpty
import CubeCalc.Proofs.Lookahead
import CubeCalc.Proofs.Capacity
import CubeCalc.Proofs.LazyList
import CubeCalc.Proofs.Adaptation
import CubeCalc.Proofs.View
import CubeCalc.Proofs.Intake
import CubeCalc.Proofs.EvaluationError
import CubeCalc.Proofs.PlanSize
import CubeCalc.Proofs.Safety
import CubeCalc.Proofs.Forest
import CubeCalc.Proofs.Additivity
import CubeCalc.Proofs.Identity
import CubeCalc.Proofs.Constants
import CubeCalc.Proofs.PlanText
import CubeCalc.Proofs.Labels
import CubeCalc.Proofs.ReadOnly
import CubeCalc.Proofs.Resolution
import CubeCalc.Proofs.ExpJson
import CubeCalc.Proofs.Ordering
import CubeCalc.Proofs.Statistics
import CubeCalc.Proofs.MemberOrder
import CubeCalc.Proofs.MinimalContext
import CubeCalc.Proofs.RandomAccess
import CubeCalc.Proofs.SortKeys
