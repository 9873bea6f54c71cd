import QuickJit.Lib.Budget
import QuickJit.Ir.Translate

/-
  Dominance and natural loops of the block graph (`ir/loops.rs`).

  `analyzeGraph` works on block indices in stages, each paid for from one
  budget: the predecessors, the blocks that can be reached, the table of
  dominators by iteration to a fixpoint, an order of the edges other than back
  edges, without which the graph is refused, and the members and the preheader
  of each loop. `tryAnalyze` reads the graph off the IR.

  A row of the table is the set of its bits, so `words` only counts in the
  costs. Vectors indexed by blocks are functions or sets of blocks.

  Correspondence (Rust ↔ Lean):
    `Vec<bool>` over blocks           ↔ `Finset Nat`
    `pending.pop()`, `pending.push`   ↔ the head of a list, or `Budget.flood`
    `binary_search` of ascending pcs  ↔ `List.idxOf?`
    `unwrap_or_default`               ↔ `analyze` gives `{}`
-/

namespace QuickJit

open Budget (spend refuse repeatWhile flood mark)

structure NaturalLoop where
  header : Nat
  preheader : Option Nat
  members : List Nat
  deriving DecidableEq, Repr

structure LoopAnalysis where
  complete : Bool := false
  pcs : List Nat := []
  dominators : List (Finset Nat) := []
  owners : List (Option (Nat × Nat)) := []
  loopNodes : List Bool := []
  loops : List NaturalLoop := []
  deriving DecidableEq

namespace LoopAnalysis

def contains (l : LoopAnalysis) (node : Nat) : Bool := l.loopNodes.getD node false

def dominates (l : LoopAnalysis) (a b : Nat) : Bool :=
  match l.pcs.idxOf? a, l.pcs.idxOf? b with
  | some a, some b => decide (a ∈ l.dominators.getD b ∅)
  | _, _ => false

/-! ## The stages -/

/-- The list of the blocks with an edge to a block, in ascending order. -/
def predecessorsOf (n : Nat) (successors : Nat → List Nat) : Budget (Nat → List Nat) :=
  (List.range n).foldlM (fun preds block =>
    (successors block).foldlM (fun preds target => do
      spend 1
      if target < n then pure (Function.update preds target (preds target ++ [block]))
      else refuse) preds)
    fun _ => []

/-- The blocks that can be reached from the first. -/
def reachableFrom (successors : Nat → List Nat) : Budget (Finset Nat) := do
  let (reachable, _) ← flood successors (fun _ => pure true) ({0}, [0])
  pure reachable

/-- The dominator table, and whether the last round changed it. -/
structure DominatorTable where
  rows : Nat → Finset Nat
  changed : Bool

/-- What the stages after the reachable blocks read. -/
structure Blocks where
  n : Nat
  successors : Nat → List Nat
  predecessors : Nat → List Nat
  reachable : Finset Nat

/-- The length of a row. -/
def Blocks.words (g : Blocks) : Nat := (g.n + 63) / 64

/-- The new row of a block: what all its predecessors have, and itself. -/
def meetBlock (g : Blocks) (t : DominatorTable) (block : Nat) : Budget DominatorTable := do
  spend 1
  if block ∈ g.reachable then do
    spend g.words
    let next ← (g.predecessors block).foldlM (fun next pred => do
      spend 1
      if pred ∈ g.reachable then do
        spend g.words
        pure (next ∩ t.rows pred)
      else pure next) g.reachable
    spend g.words
    pure (if insert block next ≠ t.rows block then
      ⟨Function.update t.rows block (insert block next), true⟩ else t)
  else pure t

/-- The rows at the start: every block that can be reached, but only itself for
the first. -/
def initialRows (g : Blocks) (block : Nat) : Finset Nat :=
  if block = 0 then {0} else if block ∈ g.reachable then g.reachable else ∅

def dominatorRows (g : Blocks) : Budget (Nat → Finset Nat) := do
  let t ← repeatWhile (fun t : DominatorTable =>
    if t.changed then
      some ((List.range' 1 (g.n - 1)).foldlM (meetBlock g) { t with changed := false })
    else none) ⟨initialRows g, true⟩
  pure t.rows

/-- How many edges other than back edges enter a block. -/
def indegrees (g : Blocks) (rows : Nat → Finset Nat) : Budget (Nat → Nat) :=
  (List.range g.n).foldlM (fun indegree block => do
    spend 1
    if block ∈ g.reachable then
      (g.successors block).foldlM (fun indegree target => do
        spend 1
        pure (if target ∈ rows block then indegree
          else Function.update indegree target (indegree target + 1))) indegree
    else pure indegree) fun _ => 0

/-- The state of the ordering: blocks without edges left to wait for, the edges
left, and how many blocks were ordered. -/
structure EdgeOrder where
  pending : List Nat
  indegree : Nat → Nat
  visited : Nat

/-- Take one edge of an ordered block away. -/
def removeEdge (rows : Nat → Finset Nat) (block : Nat) (s : EdgeOrder) (target : Nat) :
    Budget EdgeOrder := do
  spend 1
  if target ∈ rows block then pure s
  else match s.indegree target with
    | 0 => refuse
    | left + 1 => pure { s with
        indegree := Function.update s.indegree target left
        pending := if left = 0 then target :: s.pending else s.pending }

/-- Order the blocks by their edges other than back edges. -/
def orderEdges (g : Blocks) (rows : Nat → Finset Nat) (indegree : Nat → Nat) : Budget EdgeOrder :=
  repeatWhile (fun s : EdgeOrder => match s.pending with
    | [] => none
    | block :: rest => some do
      spend 1
      (g.successors block).foldlM (removeEdge rows block)
        { s with pending := rest, visited := s.visited + 1 })
    { pending := ((List.range g.n).filter fun b => b ∈ g.reachable ∧ indegree b = 0).reverse
      indegree
      visited := 0 }

/-- The predecessors of a header that it dominates. -/
def latchesOf (g : Blocks) (rows : Nat → Finset Nat) (header : Nat) : Budget (List Nat) :=
  (g.predecessors header).foldlM (fun latches pred => do
    spend 1
    pure (if header ∈ rows pred then latches ++ [pred] else latches)) []

/-- The blocks of a loop: the header, and backwards from the latches. -/
def membersOf (g : Blocks) (rows : Nat → Finset Nat) (header : Nat) (latches : List Nat) :
    Budget (Finset Nat) := do
  let (members, _) ← flood g.predecessors (fun pred =>
    if pred ∈ g.reachable then if header ∈ rows pred then pure true else refuse
    else pure false) (latches.foldl mark ({header}, []))
  pure members

/-- The last predecessor outside the loop and their number, kept if it is the
only one and leads nowhere else. -/
def preheaderOf (g : Blocks) (rows : Nat → Finset Nat) (header : Nat) (members : Finset Nat) :
    Budget (Option Nat) := do
  let (preheader, entries) ← (g.predecessors header).foldlM (fun (s : Option Nat × Nat) pred => do
    spend 1
    pure (if pred ∈ g.reachable ∧ pred ∉ members then (some pred, s.2 + 1) else s)) (none, 0)
  pure (preheader.filter fun pred =>
    entries = 1 ∧ g.successors pred = [header] ∧ pred ∈ rows header)

/-- The loops found and the blocks in one. -/
def collectLoop (pcs : List Nat) (g : Blocks) (rows : Nat → Finset Nat)
    (s : List NaturalLoop × Finset Nat) (header : Nat) :
    Budget (List NaturalLoop × Finset Nat) := do
  spend 1
  if header ∈ g.reachable then do
    let latches ← latchesOf g rows header
    if latches = [] then pure s
    else do
      spend (g.n * 2)
      let members ← membersOf g rows header latches
      let preheader ← preheaderOf g rows header members
      pure (s.1 ++ [{
        header := pcs.getD header 0
        preheader := preheader.map fun block => pcs.getD block 0
        members := ((List.range g.n).filter (· ∈ members)).map fun block => pcs.getD block 0 }],
        s.2 ∪ members)
  else pure s

/-- Start pcs begin at zero and ascend. -/
def Ascending (pcs : List Nat) : Prop := pcs.head? = some 0 ∧ pcs.Pairwise (· < ·)

instance (pcs : List Nat) : Decidable (Ascending pcs) :=
  inferInstanceAs (Decidable (pcs.head? = some 0 ∧ pcs.Pairwise (· < ·)))

/-- `analyze_graph`. -/
def analyzeGraph (pcs : List Nat) (successors : List (List Nat))
    (owners : List (Option (Nat × Nat))) : Budget LoopAnalysis := do
  let n := pcs.length
  spend (n * 16 + n * ((n + 63) / 64) + owners.length)
  if ¬ (Ascending pcs ∧ successors.length = n) then refuse
  else do
    let next block := successors.getD block []
    let predecessors ← predecessorsOf n next
    let reachable ← reachableFrom next
    let g : Blocks := ⟨n, next, predecessors, reachable⟩
    let rows ← dominatorRows g
    let indegree ← indegrees g rows
    let order ← orderEdges g rows indegree
    if order.visited ≠ reachable.card then refuse
    else do
      let (loops, loopBlocks) ← (List.range n).foldlM (collectLoop pcs g rows) ([], ∅)
      spend owners.length
      let loopNodes ← owners.mapM fun
        | some (block, _) => if block < n then pure (decide (block ∈ loopBlocks)) else refuse
        | none => pure false
      pure { complete := true, pcs, dominators := (List.range n).map rows, owners, loopNodes, loops }

/-! ## Reading the graph off the IR -/

/-- The edges of a block as indices, and its nodes given to it. -/
def readBlock (ir : OptimizedIr) (pcs : List Nat)
    (s : List (List Nat) × List (Option (Nat × Nat))) (b : OptimizedBlock × Nat) :
    Budget (List (List Nat) × List (Option (Nat × Nat))) := do
  spend (b.1.successors.length * (Nat.size ir.blocks.length + 1))
  let edges ← b.1.successors.mapM fun pc => match pcs.idxOf? pc with
    | some index => pure index
    | none => refuse
  let owners ← (b.1.nodes.map (·.id)).zipIdx.foldlM (fun owners (id, position) => do
    spend 1
    match ir.nodes[id]? with
    | none => refuse
    | some node =>
      if node.id ≠ id ∨ owners[id]?.join ≠ none then refuse
      else pure (owners.set id (some (b.2, position)))) s.2
  pure (s.1 ++ [edges], owners)

/-- The entry guard belongs to no block. -/
def isEntryGuard (node : OptimizedNode) : Bool :=
  node.pc = 0 && match node.kind with
    | .guardNumeric _ midLoop => !midLoop
    | _ => false

/-- `try_analyze`. -/
def tryAnalyze (ir : OptimizedIr) : Budget LoopAnalysis := do
  spend (ir.blocks.length * 4 + ir.nodes.length)
  let pcs := ir.blocks.map (·.startPc)
  if ¬ Ascending pcs then refuse
  else do
    let (successors, owners) ← ir.blocks.zipIdx.foldlM (readBlock ir pcs)
      ([], List.replicate ir.nodes.length none)
    (owners.zip ir.nodes).zipIdx.forM fun ((owner, node), id) => do
      spend 1
      if owner = none ∧ ¬ (id = 0 ∧ isEntryGuard node) then refuse else pure ()
    analyzeGraph pcs successors owners

/-- `LoopAnalysis::analyze`: a failure proves nothing. -/
def analyze (ir : OptimizedIr) (work : Nat) : LoopAnalysis :=
  match tryAnalyze ir work with
  | some (l, _) => l
  | none => {}

end LoopAnalysis

end QuickJit
