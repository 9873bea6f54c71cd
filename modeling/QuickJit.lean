import QuickJit.Lib.OrdMap
import QuickJit.Lib.Outcome
import QuickJit.Lib.Sweep
import QuickJit.Lib.Related
import QuickJit.Lib.Search
import QuickJit.Lib.Transition
import QuickJit.Lib.Dataflow
import QuickJit.Lib.BoundedSet
import QuickJit.Lib.Tracked
import QuickJit.Bytecode.Opcode
import QuickJit.Bytecode.Snapshot
import QuickJit.Bytecode.Cfg
import QuickJit.Bytecode.CfgFacts
import QuickJit.Bytecode.Stack
import QuickJit.Bytecode.Transfer
import QuickJit.Bytecode.Joins
import QuickJit.Bytecode.Worklist
import QuickJit.Bytecode.Verify
import QuickJit.Bytecode.Sample
import QuickJit.Bytecode.Fixpoint
import QuickJit.Bytecode.Paths
import QuickJit.Bytecode.Catches
import QuickJit.Ir.Node
import QuickJit.Ir.Blocks
import QuickJit.Ir.Expressions
import QuickJit.Ir.Graph
import QuickJit.Ir.Rewrite
import QuickJit.Ir.Checks
import QuickJit.Ir.Translate
import QuickJit.Ir.Semantics
import QuickJit.Ir.Made
import QuickJit.Ir.Depths
import QuickJit.Ir.Aligned
import QuickJit.Ir.Growth
import QuickJit.Ir.Steps
import QuickJit.Ir.Trace
import QuickJit.Ir.Link
import QuickJit.Ir.GraphOf
import QuickJit.Ir.IrOf
import QuickJit.Ir.Meanings
import QuickJit.Ir.Simulation
import QuickJit.Ir.Simulates
import QuickJit.Ir.Runs
import QuickJit.Ir.FrameStates
import QuickJit.Runtime.Artifact
import QuickJit.Runtime.CodeCache
import QuickJit.Runtime.CacheSound
import QuickJit.Runtime.CacheInsert
import QuickJit.Runtime.CacheRuns
import QuickJit.Runtime.CacheView
import QuickJit.Runtime.Dependencies
import QuickJit.Runtime.Coordinator
import QuickJit.Runtime.Lifecycle
import QuickJit.Runtime.JitSystem
import QuickJit.Runtime.Refines
import QuickJit.Runtime.Completions
import QuickJit.Runtime.Requests
import QuickJit.Runtime.SystemRuns
import QuickJit.Runtime.Bookkeeping
import QuickJit.Runtime.Standing
import QuickJit.Runtime.Retirement
import QuickJit.Runtime.Dependents
import QuickJit.Runtime.Publication
import QuickJit.Runtime.Evictions
import QuickJit.Runtime.Blacklists
import QuickJit.Runtime.Terminal
import QuickJit.Runtime.Background
import QuickJit.Runtime.Protocol
import QuickJit.Runtime.Dispatch
import QuickJit.Runtime.Backend
import QuickJit.Runtime.EntryCache
import QuickJit.Lib.Budget
import QuickJit.Lib.FlowGraph
import QuickJit.Ir.Loops
import QuickJit.Ir.Dominance
import QuickJit.Ir.NaturalLoops
import QuickJit.Runtime.EvictionPlan
import QuickJit.Runtime.CacheMemo
import QuickJit.Runtime.Benefits
import QuickJit.Runtime.ShapeFeedback
import QuickJit.Runtime.DependencyRuns
import QuickJit.Ir.LexicalChecks
import QuickJit.Runtime.Feedback
import QuickJit.Runtime.FeedbackVersions
import QuickJit.Runtime.FeedbackEvidence
import QuickJit.Runtime.FeedbackSets
import QuickJit.Runtime.FeedbackOrder
import QuickJit.Lib.Bytes
import QuickJit.Platform.Relocations
import QuickJit.Lib.Flat
import QuickJit.Compiler.Provenance
import QuickJit.Lib.Limit
import QuickJit.Bytecode.Work
import QuickJit.Runtime.InlineBudget
import QuickJit.Runtime.Osr
