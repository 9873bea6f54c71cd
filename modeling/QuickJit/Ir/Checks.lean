import QuickJit.Lib.Sweep
import QuickJit.Ir.Rewrite

/-
  Integer updates and numeric checks (`ir/scalar.rs`).

  `specializeIntegerUpdates` selects increments and decrements whose input is
  an integer on every path. `buildNumericChecks` gives every arithmetic node
  the checks of its operands and marks those that earlier checks imply:
  representation facts flow from the exits of a block's predecessors through
  its phis, then through its nodes. Facts start out unknown and a block is
  visited again when a predecessor's facts change; when the budget runs out the
  checks are computed again block by block, without facts from elsewhere.
-/

namespace QuickJit

namespace ScalarGraph

/-- `preserved_frame_read_source`: the value a slot had before a node that
leaves it alone. -/
def preservedFrameReadSource (g : ScalarGraph) (nodes : List OptimizedNode)
    (preserve : Nat → Bool) (node : Nat) (slot : FrameSlot) : Option Nat :=
  if nodes[node]?.any (fun n => n.id = node) && preserve node then
    ((g.frameStates node).bind fun state => state.slot? slot).filter fun source =>
      decide (source < g.definitions.length)
  else none

def visitCost (g : ScalarGraph) (v : Nat) : Nat :=
  match g.value? v with
  | some (.phi _ _ inputs) => max inputs.length 1
  | _ => 1

/-! ## Integer updates -/

/-- Evidence that a value is an integer. -/
def factInt : Nat := 1

/-- Evidence that it may be anything. -/
def factOther : Nat := 2

/-- The evidence for a value from that for its inputs. -/
def integerFact (g : ScalarGraph) (nodes : List OptimizedNode) (preserve : Nat → Bool)
    (facts : List Nat) (v : Nat) : Nat :=
  let fact := fun v => facts.getD v factOther
  match g.value? v with
  | some (.int32 _) => factInt
  | some (.binary .int32 _ _ _) | some (.update .int32 _ _) => factInt
  | some (.update .number input _) => fact input
  | some (.call { inline := some region, .. }) => fact region.result
  | some (.phi _ _ inputs) => inputs.foldl (fun set input => set ||| fact input.value) 0
  | some (.frameRead node slot) =>
    match g.preservedFrameReadSource nodes preserve node slot with
    | some source => fact source
    | none => factOther
  | _ => factOther

def integerSweep (g : ScalarGraph) (nodes : List OptimizedNode) (preserve : Nat → Bool) :
    Sweep Nat where
  size := g.definitions.length
  bottom := 0
  top := factOther
  cost := g.visitCost
  fillCost := g.definitions.length
  next facts v := g.integerFact nodes preserve facts v ||| facts.getD v 0

/-- An update whose input is an integer becomes an integer update. -/
def specializeDefinition (facts : List Nat) (d : Definition) : Definition :=
  match d.value with
  | .update .number input delta =>
    if facts.getD input factOther = factInt then { d with value := .update .int32 input delta }
    else d
  | _ => d

/-- The checks of an integer update are integer checks again. -/
def specializeChecks (g : ScalarGraph) (node : Nat) : List ScalarCheck :=
  match (g.nodeValues node).bind g.value? with
  | some (.update .int32 _ _) => (g.checks node).map fun check =>
    if check.mode ≠ .int32 then { check with mode := .int32, eliminated := false } else check
  | _ => g.checks node

/-- `specialize_integer_updates_with_preserved_frame_reads`, without the number
of selected updates. -/
def specializeIntegerUpdates (g : ScalarGraph) (nodes : List OptimizedNode)
    (preserve : Nat → Bool) (work : Nat) : ScalarGraph :=
  match (g.integerSweep nodes preserve).run work with
  | none => g
  | some (facts, work) =>
    let commitWork := g.definitions.length + g.nodeCount +
      ((List.range g.nodeCount).map fun node => (g.checks node).length).sum
    let definitions := g.definitions.map (specializeDefinition facts)
    if work < commitWork ∨ definitions = g.definitions then g
    else { g with definitions, checks := { g with definitions }.specializeChecks }

/-! ## Numeric checks -/

/-- What is known about the representations of values. -/
abbrev NumericFacts := OrdMap Nat ScalarNumericMode

/-- `known_numeric`. -/
def knownNumeric (g : ScalarGraph) (facts : NumericFacts) (v : Nat) : Option ScalarNumericMode :=
  match facts.get? v with
  | some mode => some mode
  | none =>
    match g.value? v with
    | some (.int32 _) => some .int32
    | _ => none

/-- Two incoming facts. -/
def mergeModes : Option ScalarNumericMode → Option ScalarNumericMode → Option ScalarNumericMode
  | some left, some right => if left = right then some left else some .number
  | _, _ => none

/-- The fact a phi's inputs agree on. -/
def phiFact (g : ScalarGraph) (exits : OrdMap Nat NumericFacts) (inputs : List ScalarPhiInput) :
    Option ScalarNumericMode :=
  let incoming := inputs.map fun input =>
    (input.predecessor.bind exits.get?).bind fun exit => g.knownNumeric exit input.value
  match incoming with
  | [] => none
  | first :: rest => rest.foldl mergeModes first

def entryFacts (g : ScalarGraph) (exits : OrdMap Nat NumericFacts) (pc : Nat) : NumericFacts :=
  (g.inputsForBlock pc).foldl (fun facts binding =>
    match g.value? binding.2 with
    | some (.phi _ _ inputs) =>
      match g.phiFact exits inputs with
      | some mode => facts.insert binding.2 mode
      | none => facts
    | _ => facts) OrdMap.empty

/-- The opcodes that check their operands. -/
def hasNumericChecks (name : OpName) : Bool :=
  name ∈ [OpName.add, .sub, .mul, .div, .lt, .lte, .gt, .gte, .inc, .dec, .postInc, .postDec,
    .incLoc, .decLoc, .or, .and, .xor, .shl, .sar, .shr]

/-- The representation a value requires of its operands, the operands, and the
representation of the value itself. -/
def numericContract : ScalarValue →
    Option (ScalarNumericMode × List Nat × Option ScalarNumericMode)
  | .binary mode _ lhs rhs => some (mode, [lhs, rhs], some mode)
  | .update mode input _ => some (mode, [input], some mode)
  | .compare _ lhs rhs => some (.number, [lhs, rhs], none)
  | .bitwise op lhs rhs =>
    some (.int32, [lhs, rhs], some (if op = .shr then .number else .int32))
  | _ => none

/-- Whether a known representation implies a required one. -/
def implies (known : Option ScalarNumericMode) (mode : ScalarNumericMode) : Bool :=
  known.any fun known => known = mode || mode = .number

def operandCheck (g : ScalarGraph) (id : Nat) (mode : ScalarNumericMode)
    (state : List ScalarCheck × NumericFacts) (v : Nat) : List ScalarCheck × NumericFacts :=
  let eliminated := implies (g.knownNumeric state.2 v) mode
  (state.1 ++ [{ value := v, mode, frameStateNode := id, eliminated }],
    if eliminated then state.2 else state.2.insert v mode)

/-- The contract of a node, when it checks its operands. -/
def nodeContract (g : ScalarGraph) (n : OptimizedNode) :
    Option (Nat × ScalarNumericMode × List Nat × Option ScalarNumericMode) :=
  if n.eliminated || !(n.opcode?.any hasNumericChecks) then none
  else (g.nodeValues n.id).bind fun v =>
    ((g.value? v).bind numericContract).map fun contract => (v, contract)

/-- One node of `numeric_checks_for_block`. -/
def nodeChecks (state : ScalarGraph × NumericFacts) (n : OptimizedNode) :
    CompileOutcome (ScalarGraph × NumericFacts) :=
  let (g, facts) := state
  match g.nodeContract n with
  | none => .ok (g, facts)
  | some (v, mode, operands, resultMode) =>
    if (g.frameStates n.id).isNone then Outcome.fail .invalidArtifact
    else
      let (checks, facts) := operands.foldl (g.operandCheck n.id mode) ([], facts)
      .ok ({ g with checks := Function.update g.checks n.id checks },
        match resultMode with
        | some resultMode => facts.insert v resultMode
        | none => facts)

/-- `numeric_checks_for_block`. -/
def numericChecksForBlock (exits : OrdMap Nat NumericFacts) (g : ScalarGraph) (b : OptimizedBlock) :
    CompileOutcome (ScalarGraph × NumericFacts) :=
  b.nodes.foldlM nodeChecks (g, g.entryFacts exits b.startPc)

def blockCost (g : ScalarGraph) (b : OptimizedBlock) : Nat :=
  max 1 (b.nodes.length + ((g.inputsForBlock b.startPc).map fun binding =>
    match g.value? binding.2 with
    | some (.phi _ _ inputs) => inputs.length
    | _ => 1).sum)

/-- The variables of the worklist: the blocks still to visit are the `queued`
ones. -/
structure Checking where
  graph : ScalarGraph
  exits : OrdMap Nat NumericFacts
  pending : List Nat

/-- Queue the block at a successor, unless it is queued. -/
def queueSuccessor (blocks : List OptimizedBlock) (pending : List Nat) (successor : Nat) :
    CompileOutcome (List Nat) := do
  let next ← Outcome.okOr .invalidArtifact
    ((blocks.map (·.startPc)).idxOf? successor)
  .ok (if next ∈ pending then pending else pending ++ [next])

/-- The block-local solution. -/
def localChecks (blocks : List OptimizedBlock) (g : ScalarGraph) : CompileOutcome ScalarGraph :=
  blocks.foldlM (fun g b => do
    let (g, _) ← g.numericChecksForBlock OrdMap.empty b
    .ok g) g

/-- The worklist of `build_numeric_checks_with_budget`. Every turn costs work,
so the fuel given to it outlasts the work. -/
def checkLoop (blocks : List OptimizedBlock) : Nat → Nat → Checking → CompileOutcome ScalarGraph
  | 0, _, _ => .error .outOfFuel
  | fuel + 1, work, c =>
    match c.pending with
    | [] => .ok c.graph
    | index :: pending => do
      let b ← Outcome.expect blocks[index]?
      if work < c.graph.blockCost b then localChecks blocks c.graph
      else do
        let (graph, facts) ← c.graph.numericChecksForBlock c.exits b
        if c.exits.get? b.startPc = some facts then
          checkLoop blocks fuel (work - c.graph.blockCost b) { c with graph, pending }
        else do
          let pending ← b.successors.foldlM (queueSuccessor blocks) pending
          checkLoop blocks fuel (work - c.graph.blockCost b)
            { graph, exits := c.exits.insert b.startPc facts, pending }

/-- `build_numeric_checks_with_budget`. -/
def buildNumericChecksWithBudget (g : ScalarGraph) (blocks : List OptimizedBlock) (work : Nat) :
    CompileOutcome ScalarGraph :=
  checkLoop blocks (work + 1) work
    { graph := g, exits := OrdMap.empty, pending := List.range blocks.length }

end ScalarGraph

end QuickJit
