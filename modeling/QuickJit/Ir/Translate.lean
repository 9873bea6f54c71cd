import QuickJit.Ir.Checks

/-
  `OptimizedIr::translate`: the stages put together.

  The verified function becomes blocks of nodes, adjacent pure expressions are
  shared, and the scalar graph is built over the result. Inlining may exhaust a
  quota of the graph; translation is then tried once more without it.
-/

namespace QuickJit

/-- `ScalarGraph::rewrite`. -/
def ScalarGraph.rewrite (shape : OptimizedFrameShape) (modes : OrdMap Nat ScalarNumericMode)
    (inlineCallees : OrdMap Nat InlineCallee) (entry : OptimizedNode)
    (blocks : List OptimizedBlock) : CompileOutcome BuiltGraph := do
  let slots ← trackedSlots shape (entry :: blocks.flatMap (·.nodes))
  let built ← buildGraph { slots, shape, modes, inlineCallees } entry blocks
  let g :=
    if blocks.any (·.loopHeader) then
      built.graph.specializeIntegerUpdates [] (fun _ => false)
        (built.graph.definitions.length * 128)
    else built.graph
  let g ← g.buildNumericChecksWithBudget built.blocks ((g.nodeCount + g.definitions.length) * 128)
  .ok { built with graph := g }

structure OptimizedIr where
  entry : OptimizedNode
  blocks : List OptimizedBlock
  graph : ScalarGraph
  guards : List GuardSite
  boxesElided : Nat
  cseEliminated : Nat
  deadNodesEliminated : Nat
  feedbackEpoch : Nat
  maxStack : Nat

namespace OptimizedIr

/-- `nodes`: a node's id is its position. -/
def nodes (ir : OptimizedIr) : List OptimizedNode := ir.entry :: ir.blocks.flatMap (·.nodes)

/-- The block that starts at `pc`. -/
def block? (ir : OptimizedIr) (pc : Nat) : Option OptimizedBlock :=
  ir.blocks.find? fun b => b.startPc = pc

/-- The frame of the translated function, without its stack. -/
def frameShape (f : VerifiedFunction) : OptimizedFrameShape :=
  ⟨f.snapshot.argCount.toNat, f.snapshot.localCount.toNat, 0⟩

/-- `translate_with_inline_callees_impl`. -/
def translateWith (fuel : Nat) (f : VerifiedFunction) (feedbackEpoch : Nat)
    (modes : OrdMap Nat ScalarNumericMode) (inlineCallees : OrdMap Nat InlineCallee) :
    CompileOutcome OptimizedIr :=
  if feedbackEpoch = 0 then Outcome.fail .invalidArtifact
  else do
    let translated ← translateBlocks fuel f
    let (blocks, cse, dead) := rewritePureExpressions modes translated.blocks
    let built ← ScalarGraph.rewrite (frameShape f) modes inlineCallees translated.entry blocks
    .ok {
      entry := translated.entry
      blocks := built.blocks
      graph := built.graph
      guards := translated.state.guards
      boxesElided := translated.state.boxesElided
      cseEliminated := cse + built.eliminated
      deadNodesEliminated := dead
      feedbackEpoch
      maxStack := min translated.state.maxStack f.snapshot.stackSize.toNat }

/-- `translate_with_inline_callees`; `fuel` bounds the walk over the blocks. -/
def translate (fuel : Nat) (f : VerifiedFunction) (feedbackEpoch : Nat)
    (modes : OrdMap Nat ScalarNumericMode) (inlineCallees : OrdMap Nat InlineCallee) :
    CompileOutcome OptimizedIr :=
  match translateWith fuel f feedbackEpoch modes inlineCallees with
  | .error (.error .resourceLimit) =>
    if inlineCallees.keys = [] then Outcome.fail .resourceLimit
    else translateWith fuel f feedbackEpoch modes OrdMap.empty
  | result => result

end OptimizedIr

end QuickJit
