import QuickJit.Ir.Semantics

/-
  What the first stage of the translation makes.

  Every node of a block is the guard of a loop header or is made from one
  operation of an instruction (`OptimizedNode.Made`); ids are consecutive; the
  operations of a block are those of its instructions; and running them from
  the block's depth ends at the depth of every successor.

  The opcode table is generated from QuickJS's header. `OpcodeTable.Standard`
  says that the rows whose shape these proofs use have the shape QuickJS gives
  them.
-/

namespace QuickJit

open Outcome

variable {op : BytecodeOp} {i : Instruction} {ops : List BytecodeOp} {nodes : List OptimizedNode}
  {d d' pc : Nat} {shape : OptimizedFrameShape} {n : OptimizedNode} {t t' : Translating}
  {f : VerifiedFunction}

/-! ## The shape of opcodes -/

/-- Byte size, pops and pushes of the opcodes whose meaning fixes them. -/
def standardShape : OpName → Option (Nat × Nat × Nat)
  | .getArg | .getLoc | .getLocCheck => some (3, 0, 1)
  | .getLoc8 => some (2, 0, 1)
  | .getArg0 | .getArg1 | .getArg2 | .getArg3 | .getLoc0 | .getLoc1 | .getLoc2 | .getLoc3 =>
    some (1, 0, 1)
  | .getLoc0Loc1 => some (1, 0, 2)
  | .putArg | .putLoc | .putLocCheck | .putLocCheckInit => some (3, 1, 0)
  | .putLoc8 => some (2, 1, 0)
  | .putArg0 | .putArg1 | .putArg2 | .putArg3 | .putLoc0 | .putLoc1 | .putLoc2 | .putLoc3 =>
    some (1, 1, 0)
  | .setArg | .setLoc => some (3, 1, 1)
  | .setLoc8 => some (2, 1, 1)
  | .setArg0 | .setArg1 | .setArg2 | .setArg3 | .setLoc0 | .setLoc1 | .setLoc2 | .setLoc3 =>
    some (1, 1, 1)
  | .setLocUninitialized => some (3, 0, 0)
  | .incLoc | .decLoc => some (2, 0, 0)
  | .addLoc => some (2, 1, 0)
  | .pushMinus1 | .push0 | .push1 | .push2 | .push3 | .push4 | .push5 | .push6 | .push7
  | .pushTrue | .pushFalse => some (1, 0, 1)
  | .pushI8 => some (2, 0, 1)
  | .pushI16 => some (3, 0, 1)
  | .pushI32 => some (5, 0, 1)
  | .postInc | .postDec => some (1, 1, 2)
  | .add | .sub | .mul | .div => some (1, 2, 1)
  | .drop => some (1, 1, 0)
  | _ => none

/-- The table gives these opcodes the shape QuickJS gives them. -/
structure OpcodeTable.Standard (table : OpcodeTable) : Prop where
  shape : ∀ {k row shape}, table k = some row → standardShape row.name = some shape →
    (row.size, row.nPop, row.nPush) = shape ∧ row.format ∉ [OperandFormat.nPop, .nPopU16, .nPopFixed]
  tail : ∀ {k row}, table k = some row → row.name = .tailCall ∨ row.name = .tailCallMethod →
    row.nPush = 0

/-- The same for one instruction. -/
structure Instruction.Standard (i : Instruction) : Prop where
  shape : ∀ {shape}, standardShape i.name = some shape →
    (i.bytes.length, effectivePop i, i.opcode.nPush) = shape
  tail : i.name = .tailCall ∨ i.name = .tailCallMethod → i.opcode.nPush = 0

theorem Encoded.row {table : OpcodeTable} : ∀ {is : List Instruction} {pc : Nat},
    Encoded table pc is → ∀ i ∈ is, (∃ k, table k = some i.opcode) ∧ i.bytes.length = i.opcode.size
  | j :: is, _, ⟨_, _, hsize, _, hop, hrest⟩, i, hi => by
    rcases List.mem_cons.mp hi with rfl | hi
    · exact ⟨⟨_, (Option.filter_eq_some_iff.mp hop).1⟩, hsize⟩
    · exact hrest.row i hi

theorem effectivePop_of_format (h : i.opcode.format ∉ [OperandFormat.nPop, .nPopU16, .nPopFixed]) :
    effectivePop i = i.opcode.nPop := by
  unfold effectivePop Instruction.format
  split <;> simp_all

/-- Decoded instructions have the standard shape. -/
theorem verify_standard {table : OpcodeTable} {fuel : Nat} {snapshot : CompileSnapshot}
    {limits : VerifyLimits} (ht : table.Standard) (h : verify table fuel snapshot limits = .ok f) :
    ∀ i ∈ f.instructions, i.Standard := by
  obtain ⟨proof, hv⟩ := verify_eq_ok h
  intro i hi
  obtain ⟨⟨k, hk⟩, hlen⟩ := (decodeInstructions_iff.mp hv.decoded).2.1.row i hi
  refine ⟨fun hshape => ?_, fun hname => ht.tail hk hname⟩
  obtain ⟨hrow, hformat⟩ := ht.shape hk hshape
  rw [hlen, effectivePop_of_format hformat, hrow]

/-! ## Nodes -/

/-- A node made from the operation `op`. -/
structure OptimizedNode.Made (n : OptimizedNode) (op : BytecodeOp) : Prop where
  op_eq : n.op = some op
  kind_eq : n.kind = .bytecode op.name
  pops_eq : n.pops = op.pops
  pushes_eq : n.pushes = op.pushes
  class_eq : classifyOptimizedOpcode op.name = some (n.representation, n.effect)
  eliminated_eq : n.eliminated = decide (op.name ∈ [OpName.nop, .drop])
  guard_eq : n.deoptGuard.isSome = needsDeoptGuard op.name
  shape : ∀ {shape}, standardShape op.name = some shape →
    (n.bytes.length, op.pops, op.pushes) = shape

structure OptimizedNode.IsGuard (n : OptimizedNode) : Prop where
  op_eq : n.op = none
  kind_eq : ∃ guard midLoop, n.kind = .guardNumeric guard midLoop
  effect_eq : n.effect = .control
  eliminated_eq : n.eliminated = false
  pops_eq : n.pops = 0
  pushes_eq : n.pushes = 0
  guard_eq : n.deoptGuard.isSome

/-- A node as translation makes it. -/
def OptimizedNode.Fresh (n : OptimizedNode) : Prop := n.IsGuard ∨ ∃ op, n.Made op

/-! ## Collected steps -/

/-- The steps of a successful `collectM`. -/
inductive Collects {σ α β : Type} (step : σ → α → CompileOutcome (β × σ)) :
    σ → List α → List β → σ → Prop
  | nil {s} : Collects step s [] [] s
  | cons {s a b s' rest bs s''} : step s a = .ok (b, s') → Collects step s' rest bs s'' →
      Collects step s (a :: rest) (b :: bs) s''

theorem collectM_eq_ok {σ α β : Type} {step : σ → α → CompileOutcome (β × σ)} :
    ∀ {l : List α} {s : σ} {bs : List β} {s' : σ}, collectM step s l = .ok (bs, s') →
      Collects step s l bs s'
  | [], s, bs, s', h => by
    cases h
    exact .nil
  | a :: rest, s, bs, s', h => by
    simp only [collectM, bind_eq_ok] at h
    obtain ⟨⟨b, s₁⟩, hb, ⟨bs', s₂⟩, hrest, hr⟩ := h
    cases hr
    exact .cons hb (collectM_eq_ok hrest)

namespace Collects

variable {σ α β : Type} {step : σ → α → CompileOutcome (β × σ)} {s s' : σ} {l : List α}
  {bs : List β}

theorem length (h : Collects step s l bs s') : bs.length = l.length := by
  induction h with
  | nil => rfl
  | cons _ _ ih => simp [ih]

/-- A relation between states that every step keeps. -/
theorem rel {R : σ → σ → Prop} (h : Collects step s l bs s') (hrefl : ∀ s, R s s)
    (htrans : ∀ {a b c}, R a b → R b c → R a c)
    (hstep : ∀ {s a b s'}, a ∈ l → step s a = .ok (b, s') → R s s') : R s s' := by
  induction h with
  | nil => exact hrefl _
  | cons hb _ ih =>
    exact htrans (hstep List.mem_cons_self hb) (ih fun ha => hstep (List.mem_cons_of_mem _ ha))

end Collects

/-! ## Translating one instruction -/

theorem newGuard_nextId {guard : Nat} {phase : DeoptPhase}
    (h : t.newGuard pc phase shape = .ok (guard, t')) :
    t'.nextId = t.nextId := by
  unfold Translating.newGuard at h
  rw [ite_fail_eq_ok] at h
  simp only [bind_eq_ok] at h
  obtain ⟨-, map, -, h⟩ := h
  cases h
  rfl

theorem operationGuard_eq_ok {name : OpName} {guard : Option Nat}
    (h : operationGuard shape pc name t = .ok (guard, t')) :
    t'.nextId = t.nextId ∧ guard.isSome = needsDeoptGuard name := by
  unfold operationGuard at h
  split at h
  case isTrue hneeds =>
    simp only [bind_eq_ok] at h
    obtain ⟨⟨guard, t₁⟩, hguard, h⟩ := h
    cases h
    exact ⟨newGuard_nextId hguard, by simp [hneeds]⟩
  case isFalse hneeds =>
    cases h
    exact ⟨rfl, by simpa using hneeds⟩

theorem makeGuard_eq_ok {midLoop : Bool} (h : makeGuard shape pc midLoop t = .ok (n, t')) :
    n.IsGuard ∧ n.id = t.nextId ∧ t'.nextId = n.id + 1 ∧ n.isPoll = midLoop := by
  simp only [makeGuard, bind_eq_ok] at h
  obtain ⟨⟨guard, t₁⟩, hguard, id, hid, h⟩ := h
  cases h
  unfold Translating.newId at hid
  rw [ite_fail_eq_ok] at hid
  refine ⟨⟨rfl, ⟨_, _, rfl⟩, rfl, rfl, rfl, rfl, rfl⟩, ?_, rfl, rfl⟩
  rw [← newGuard_nextId hguard]
  exact (Except.ok.inj hid.2).symm

/-- The operations an instruction is translated to have its shape. -/
theorem Instruction.Standard.expansion (hi : i.Standard) (hop : op ∈ expansions i)
    {shape : Nat × Nat × Nat} (hs : standardShape op.name = some shape) :
    (i.bytes.length, op.pops, op.pushes) = shape := by
  unfold expansions at hop
  split at hop
  · rcases List.mem_pair.mp hop with rfl | rfl <;> cases hs
  · split at hop
    · rcases List.mem_pair.mp hop with rfl | rfl <;> cases hs
    · cases List.mem_singleton.mp hop
      exact hi.shape hs

theorem translateOp_eq_ok (hi : i.Standard) (hop : op ∈ expansions i)
    (h : translateOp shape i (t, d) op = .ok (n, (t', d'))) :
    n.Made op ∧ n.id = t.nextId ∧ t'.nextId = n.id + 1 ∧ depthAfterOp d op = .ok d' := by
  simp only [translateOp, bind_eq_ok] at h
  obtain ⟨⟨representation, effect⟩, hclass, ⟨guard, t₁⟩, hguard, id, hid, d₁, hd, h⟩ := h
  cases h
  unfold Translating.newId at hid
  rw [ite_fail_eq_ok] at hid
  obtain ⟨hnext, hsome⟩ := operationGuard_eq_ok hguard
  refine ⟨⟨rfl, rfl, rfl, rfl, okOr_eq_ok.mp hclass, rfl, hsome, hi.expansion hop⟩, ?_, rfl,
    hd⟩
  rw [← hnext]
  exact (Except.ok.inj hid.2).symm

/-- Nodes made one after the other from operations: ids, operations and depths. -/
structure MadeFrom (lo d : Nat) (ops : List BytecodeOp) (nodes : List OptimizedNode) (hi d' : Nat) :
    Prop where
  fresh : ∀ n ∈ nodes, ∃ op, n.Made op
  ids : nodes.map (·.id) = List.range' lo nodes.length
  next : hi = lo + nodes.length
  ops_eq : nodes.filterMap (·.op) = ops
  depth : ops.foldlM depthAfterOp d = .ok d'

theorem MadeFrom.nil (lo d : Nat) : MadeFrom lo d [] [] lo d :=
  ⟨fun _ h => (List.not_mem_nil h).elim, rfl, rfl, rfl, rfl⟩

theorem MadeFrom.cons (hn : n.Made op) {lo d₁ hi : Nat} (hid : n.id = lo)
    (hd : depthAfterOp d op = .ok d₁) (h : MadeFrom (lo + 1) d₁ ops nodes hi d') :
    MadeFrom lo d (op :: ops) (n :: nodes) hi d' := by
  refine ⟨?_, ?_, ?_, ?_, ?_⟩
  · intro n' hn'
    rcases List.mem_cons.mp hn' with rfl | hn'
    · exact ⟨op, hn⟩
    · exact h.fresh n' hn'
  · simp [List.range'_succ, hid, h.ids]
  · rw [h.next, List.length_cons]
    omega
  · simp [hn.op_eq, h.ops_eq]
  · rw [List.foldlM_cons, hd]
    exact h.depth

theorem MadeFrom.append {lo mid d₁ hi : Nat} {ops' : List BytecodeOp} {nodes' : List OptimizedNode}
    (h : MadeFrom lo d ops nodes mid d₁) (h' : MadeFrom mid d₁ ops' nodes' hi d') :
    MadeFrom lo d (ops ++ ops') (nodes ++ nodes') hi d' := by
  refine ⟨?_, ?_, ?_, ?_, ?_⟩
  · intro n hn
    rcases List.mem_append.mp hn with hn | hn
    · exact h.fresh n hn
    · exact h'.fresh n hn
  · rw [List.map_append, h.ids, h'.ids, h.next, List.length_append, ← List.range'_append_1]
  · rw [h'.next, h.next, List.length_append]
    omega
  · rw [List.filterMap_append, h.ops_eq, h'.ops_eq]
  · rw [List.foldlM_append, h.depth]
    exact h'.depth

theorem translateOps_made (hi : i.Standard) (hops : ∀ op ∈ ops, op ∈ expansions i)
    {s s' : Translating × Nat} (h : Collects (translateOp shape i) s ops nodes s') :
    MadeFrom s.1.nextId s.2 ops nodes s'.1.nextId s'.2 := by
  induction h with
  | nil => exact .nil _ _
  | @cons s op n s₁ rest nodes s' hstep _ ih =>
    obtain ⟨hmade, hid, hnext, hd⟩ := translateOp_eq_ok hi (hops op List.mem_cons_self) hstep
    have hrest := ih fun op hop => hops op (List.mem_cons_of_mem _ hop)
    rw [hnext, hid] at hrest
    exact .cons hmade hid hd hrest

theorem translateInstructions_made {is : List Instruction} (his : ∀ i ∈ is, i.Standard)
    {s s' : Translating × Nat} {nodes : List (List OptimizedNode)}
    (h : Collects (translateInstruction shape) s is nodes s') :
    MadeFrom s.1.nextId s.2 (is.flatMap expansions) nodes.flatten s'.1.nextId s'.2 := by
  induction h with
  | nil => exact .nil _ _
  | @cons s i ns s₁ rest nodes s' hstep _ ih =>
    unfold translateInstruction at hstep
    rw [ite_fail_eq_ok] at hstep
    have hhead := translateOps_made (his i List.mem_cons_self) (fun op hop => hop)
      (collectM_eq_ok hstep.2)
    exact hhead.append (ih fun i hi => his i (List.mem_cons_of_mem _ hi))

/-! ## Blocks -/

/-- What one block of the control-flow graph is translated to. -/
structure TranslatedBlock (f : VerifiedFunction) (depths : OrdMap Nat Nat) (b : BasicBlock)
    (lo : Nat) (ob : OptimizedBlock) : Prop where
  startPc_eq : ob.startPc = b.startPc
  successors_eq : ob.successors = b.successors
  header_eq : ob.loopHeader = f.cfg.isLoopHeader b.startPc
  depth_eq : depths.get? b.startPc = some ob.stackDepth
  fresh : ∀ n ∈ ob.nodes, n.Fresh
  ids : ob.nodes.map (·.id) = List.range' lo ob.nodes.length
  ops : ob.nodes.filterMap (·.op) = (b.instructions f.instructions).flatMap expansions
  depth : ∃ d, (ob.nodes.filterMap (·.op)).foldlM depthAfterOp ob.stackDepth = .ok d

theorem headerGuard_eq_ok (h : headerGuard shape f pc t = .ok (nodes, t')) :
    (∀ n ∈ nodes, n.IsGuard) ∧ nodes.map (·.id) = List.range' t.nextId nodes.length ∧
      t'.nextId = t.nextId + nodes.length := by
  unfold headerGuard at h
  split at h
  · simp only [bind_eq_ok] at h
    obtain ⟨⟨n, t₁⟩, hn, h⟩ := h
    cases h
    obtain ⟨hguard, hid, hnext, -⟩ := makeGuard_eq_ok hn
    refine ⟨fun n' hn' => ?_, ?_, ?_⟩
    · rw [List.mem_singleton.mp hn']
      exact hguard
    · simp [hid]
    · rw [hnext, hid]
      rfl
  · cases h
    exact ⟨fun _ h => (List.not_mem_nil h).elim, rfl, rfl⟩

theorem translateBlock_eq_ok (hf : ∀ i ∈ f.instructions, i.Standard) {depths : OrdMap Nat Nat}
    {b : BasicBlock} {ob : OptimizedBlock} (h : translateBlock shape f depths t b = .ok (ob, t')) :
    TranslatedBlock f depths b t.nextId ob ∧ t'.nextId = t.nextId + ob.nodes.length := by
  simp only [translateBlock, bind_eq_ok] at h
  obtain ⟨depth, hdepth, ⟨header, t₁⟩, hheader, ⟨nodes, t₂, d⟩, hnodes, h⟩ := h
  cases h
  obtain ⟨hguards, hids, hnext⟩ := headerGuard_eq_ok hheader
  have his : ∀ i ∈ b.instructions f.instructions, i.Standard := fun i hi =>
    hf i (List.mem_of_mem_drop (List.mem_of_mem_take hi))
  have hmade := translateInstructions_made his (collectM_eq_ok hnodes)
  have hnone : header.filterMap (·.op) = [] :=
    List.filterMap_eq_nil_iff.mpr fun n hn => (hguards n hn).op_eq
  have hops : (header ++ nodes.flatten).filterMap (·.op) =
      (b.instructions f.instructions).flatMap expansions := by
    rw [List.filterMap_append, hnone, hmade.ops_eq, List.nil_append]
  refine ⟨⟨rfl, rfl, rfl, okOr_eq_ok.mp hdepth, ?_, ?_, hops, d, ?_⟩, ?_⟩
  · intro n hn
    rcases List.mem_append.mp hn with hn | hn
    · exact .inl (hguards n hn)
    · exact .inr (hmade.fresh n hn)
  · rw [List.map_append, hids, hmade.ids, hnext, List.length_append, ← List.range'_append_1]
  · rw [hops]
    exact hmade.depth
  · rw [hmade.next, hnext, List.length_append, Nat.add_assoc]

/-- The blocks of a function: one for each block of its graph, with ids in
order. -/
inductive TranslatedFrom (f : VerifiedFunction) (depths : OrdMap Nat Nat) :
    Nat → List BasicBlock → List OptimizedBlock → Prop
  | nil {lo} : TranslatedFrom f depths lo [] []
  | cons {lo b ob bs obs} : TranslatedBlock f depths b lo ob →
      TranslatedFrom f depths (lo + ob.nodes.length) bs obs →
      TranslatedFrom f depths lo (b :: bs) (ob :: obs)

theorem translateBlocks_from (hf : ∀ i ∈ f.instructions, i.Standard) {depths : OrdMap Nat Nat}
    {bs : List BasicBlock} {obs : List OptimizedBlock}
    (h : Collects (translateBlock shape f depths) t bs obs t') :
    TranslatedFrom f depths t.nextId bs obs := by
  induction h with
  | nil => exact .nil
  | cons hb _ ih =>
    obtain ⟨hblock, hnext⟩ := translateBlock_eq_ok hf hb
    rw [hnext] at ih
    exact .cons hblock ih

end QuickJit
