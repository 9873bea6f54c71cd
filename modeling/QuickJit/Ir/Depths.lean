import QuickJit.Bytecode.CfgFacts
import QuickJit.Ir.Made

/-
  The stack depths of blocks.

  `optimizedBlockDepths` visits every block that the entry reaches once. What it
  returns is closed under edges: the operations of a block lead from its depth
  to the depth of each of its successors (`DepthsClosed`).
-/

namespace QuickJit

open Outcome

variable {d d' : Nat} {depths : OrdMap Nat Nat} {f : VerifiedFunction}

/-- Block `pc`, entered at depth `d`, leaves at the depth of its successors. -/
def DepthSettled (f : VerifiedFunction) (depths : OrdMap Nat Nat) (pc d : Nat) : Prop :=
  ∃ b d', f.cfg.block pc = some b ∧
    (b.instructions f.instructions).foldlM depthAfter d = .ok d' ∧
    ∀ successor ∈ b.successors, depths.get? successor = some d'

structure DepthsClosed (f : VerifiedFunction) (depths : OrdMap Nat Nat) : Prop where
  entry : depths.get? 0 = some 0
  settled : ∀ {pc d}, depths.get? pc = some d → DepthSettled f depths pc d

/-- The invariant of the walk: a block with a depth is queued or settled. -/
structure DepthWalkOk (f : VerifiedFunction) (w : DepthWalk) : Prop where
  entry : w.depths.get? 0 = some 0
  settled : ∀ {pc d}, w.depths.get? pc = some d → pc ∈ w.queue ∨ DepthSettled f w.depths pc d

/-- `depths'` has every depth that `depths` has. -/
def DepthsGrow (depths depths' : OrdMap Nat Nat) : Prop :=
  ∀ {pc d}, depths.get? pc = some d → depths'.get? pc = some d

theorem DepthSettled.mono {depths' : OrdMap Nat Nat} {pc : Nat} (h : DepthSettled f depths pc d)
    (hgrow : DepthsGrow depths depths') :
    DepthSettled f depths' pc d := by
  obtain ⟨b, d', hb, hrun, hsucc⟩ := h
  exact ⟨b, d', hb, hrun, fun s hs => hgrow (hsucc s hs)⟩

/-- What giving the successors their depth does. -/
structure SuccessorDepths (w : DepthWalk) (depth : Nat) (seen : List Nat) (w' : DepthWalk) :
    Prop where
  grow : DepthsGrow w.depths w'.depths
  seen_depth : ∀ s ∈ seen, w'.depths.get? s = some depth
  queued : ∀ pc ∈ w.queue, pc ∈ w'.queue
  fresh : ∀ {pc d}, w'.depths.get? pc = some d → w.depths.get? pc = some d ∨ pc ∈ w'.queue

theorem depthSuccessor_ok {w₀ w w' : DepthWalk} {depth s : Nat} {seen : List Nat}
    (hw : SuccessorDepths w₀ depth seen w) (h : depthSuccessor depth w s = .ok w') :
    SuccessorDepths w₀ depth (seen ++ [s]) w' := by
  unfold depthSuccessor at h
  split at h
  case h_1 existing hexisting =>
    rw [ite_fail_eq_ok] at h
    obtain ⟨heq, h⟩ := h
    cases h
    refine ⟨hw.grow, fun s' hs' => ?_, hw.queued, hw.fresh⟩
    rcases List.mem_append.mp hs' with hs' | hs'
    · exact hw.seen_depth s' hs'
    · rw [List.mem_singleton.mp hs', hexisting, not_not.mp heq]
  case h_2 hnone =>
    cases h
    have hkeep : DepthsGrow w.depths (w.depths.insert s depth) := by
      intro pc d hpc
      rw [OrdMap.get?_insert]
      split
      case isTrue heq => simp [heq, hpc] at hnone
      case isFalse => exact hpc
    refine ⟨fun hpc => hkeep (hw.grow hpc), fun s' hs' => ?_, fun pc hpc => ?_, ?_⟩
    · rcases List.mem_append.mp hs' with hs' | hs'
      · exact hkeep (hw.seen_depth s' hs')
      · rw [List.mem_singleton.mp hs']
        exact OrdMap.get?_insert_self _ _ _
    · exact List.mem_append_left _ (hw.queued pc hpc)
    · intro pc d hpc
      by_cases heq : pc = s
      · exact .inr (List.mem_append_right _ (List.mem_singleton.mpr heq))
      · rw [OrdMap.get?_insert_ne _ _ (Ne.symm heq)] at hpc
        exact (hw.fresh hpc).imp_right fun hq => List.mem_append_left _ hq

theorem depthStep_ok {w w' : DepthWalk} (hw : DepthWalkOk f w) (h : depthStep f w = .ok (some w')) :
    DepthWalkOk f w' := by
  unfold depthStep at h
  split at h
  · cases h
  case h_2 pc queue hqueue =>
    simp only [bind_eq_ok] at h
    obtain ⟨b, hb, d, hd, d', hrun, w₁, hsucc, h⟩ := h
    cases h
    rw [okOr_eq_ok] at hb hd
    have hdone : SuccessorDepths { w with queue } d' b.successors w' :=
      foldlM_inv (P := SuccessorDepths _ d') hsucc
        ⟨fun h => h, fun _ h => (List.not_mem_nil h).elim, fun _ h => h, fun h => .inl h⟩
        (fun _ _ _ _ _ _ hok hstep => depthSuccessor_ok hok hstep)
    refine ⟨hdone.grow hw.entry, fun {pc' d''} hpc' => ?_⟩
    rcases hdone.fresh hpc' with hold | hnew
    · rcases hw.settled hold with hq | hsettled
      · rw [hqueue] at hq
        rcases List.mem_cons.mp hq with heq | hq
        · right
          subst heq
          rw [show d'' = d from Option.some.inj (hold.symm.trans hd)]
          exact ⟨b, d', hb, hrun, hdone.seen_depth⟩
        · exact .inl (hdone.queued _ hq)
      · exact .inr (hsettled.mono hdone.grow)
    · exact .inl hnew

theorem optimizedBlockDepths_closed {fuel : Nat} (h : optimizedBlockDepths fuel f = .ok depths) :
    DepthsClosed f depths := by
  simp only [optimizedBlockDepths, bind_eq_ok] at h
  obtain ⟨w, hw, h⟩ := h
  cases h
  have hstart : DepthWalkOk f { depths := OrdMap.empty.insert 0 0, queue := [0] } := by
    refine ⟨OrdMap.get?_insert_self _ _ _, fun {pc d} hpc => .inl ?_⟩
    by_cases heq : pc = 0
    · exact List.mem_singleton.mpr heq
    · rw [OrdMap.get?_insert_ne _ _ (Ne.symm heq)] at hpc
      simp at hpc
  obtain ⟨hok, hend⟩ := iterate_inv (fun _ _ => depthStep_ok) hw hstart
  have hempty : w.queue = [] := by
    unfold depthStep at hend
    split at hend
    case h_1 hq => exact hq
    case h_2 =>
      simp only [bind_eq_ok] at hend
      obtain ⟨_, _, _, _, _, _, _, _, hend⟩ := hend
      cases hend
  refine ⟨hok.entry, fun hpc => ?_⟩
  rcases hok.settled hpc with hq | hsettled
  · rw [hempty] at hq
    cases hq
  · exact hsettled

/-! ## Operations and instructions -/

theorem depthAfter_eq_ok {i : Instruction} (h : depthAfter d i = .ok d') :
    d' = d - effectivePop i + i.opcode.nPush := by
  unfold depthAfter at h
  rw [ite_fail_eq_ok, ite_fail_eq_ok, ite_fail_eq_ok] at h
  exact (Except.ok.inj h.2.2.2).symm

theorem depthAfterOp_eq_ok {op : BytecodeOp} (h : depthAfterOp d op = .ok d') :
    op.pops ≤ d ∧ d' = d - op.pops + op.pushes := by
  unfold depthAfterOp at h
  rw [ite_fail_eq_ok] at h
  exact ⟨by omega, (Except.ok.inj h.2).symm⟩

/-- The operations of an instruction move the depth as the instruction does. -/
theorem expansions_depth {i : Instruction} (hi : i.Standard) {d'' : Nat}
    (h : depthAfter d i = .ok d') (hops : (expansions i).foldlM depthAfterOp d = .ok d'') :
    d'' = d' := by
  rw [depthAfter_eq_ok h]
  unfold expansions at hops
  -- A tail call leaves nothing behind: its return pops the result of the call.
  have htail : ∀ name, (i.name = .tailCall ∨ i.name = .tailCallMethod) →
      [(⟨name, effectivePop i, 1⟩ : BytecodeOp), ⟨.returnOp, 1, 0⟩].foldlM depthAfterOp d = .ok d'' →
      d'' = d - effectivePop i + i.opcode.nPush := by
    intro name hname h
    simp only [List.foldlM_cons, List.foldlM_nil, bind_eq_ok] at h
    obtain ⟨d₁, h₁, d₂, h₂, h⟩ := h
    cases h
    rw [hi.tail hname, (depthAfterOp_eq_ok h₂).2, (depthAfterOp_eq_ok h₁).2]
    simp
  split at hops
  case isTrue hname => exact htail _ (.inl hname) hops
  case isFalse =>
    split at hops
    case isTrue hname => exact htail _ (.inr hname) hops
    case isFalse =>
      simp only [List.foldlM_cons, List.foldlM_nil, bind_eq_ok] at hops
      obtain ⟨d₁, h₁, hops⟩ := hops
      cases hops
      exact (depthAfterOp_eq_ok h₁).2

theorem instructions_depth : ∀ {is : List Instruction}, (∀ i ∈ is, i.Standard) →
    ∀ {d d' d'' : Nat}, is.foldlM depthAfter d = .ok d' →
      (is.flatMap expansions).foldlM depthAfterOp d = .ok d'' → d'' = d'
  | [], _, d, d', d'', h, hops => by
    cases h
    cases hops
    rfl
  | i :: is, his, d, d', d'', h, hops => by
    rw [List.foldlM_cons, bind_eq_ok] at h
    obtain ⟨d₁, h₁, h⟩ := h
    rw [List.flatMap_cons, List.foldlM_append, bind_eq_ok] at hops
    obtain ⟨d₂, h₂, hops⟩ := hops
    cases expansions_depth (his i List.mem_cons_self) h₁ h₂
    exact instructions_depth (fun i hi => his i (List.mem_cons_of_mem _ hi)) h hops

/-- A translated block leaves at the depth of each of its successors. -/
theorem TranslatedBlock.exit_depth (hf : ∀ i ∈ f.instructions, i.Standard)
    (hcfg : f.cfg.Ok f.instructions) (hclosed : DepthsClosed f depths) {b : BasicBlock}
    (hb : b ∈ f.cfg.blocks) {lo : Nat} {ob : OptimizedBlock} (h : TranslatedBlock f depths b lo ob) :
    ∃ d, (ob.nodes.filterMap (·.op)).foldlM depthAfterOp ob.stackDepth = .ok d ∧
      ∀ s ∈ ob.successors, depths.get? s = some d := by
  obtain ⟨d, hd⟩ := h.depth
  obtain ⟨b', d', hb', hrun, hsucc⟩ := hclosed.settled h.depth_eq
  have heq : b' = b := Option.some.inj (hb'.symm.trans (hcfg.block_iff.mpr ⟨hb, rfl⟩))
  subst heq
  have his : ∀ i ∈ b'.instructions f.instructions, i.Standard := fun i hi =>
    hf i (List.mem_of_mem_drop (List.mem_of_mem_take hi))
  have hsame : d = d' := instructions_depth his hrun (h.ops ▸ hd)
  refine ⟨d, hd, fun s hs => ?_⟩
  rw [h.successors_eq] at hs
  rw [hsucc s hs, hsame]

end QuickJit
