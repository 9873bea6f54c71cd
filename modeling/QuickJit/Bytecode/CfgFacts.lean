import QuickJit.Lib.Related
import QuickJit.Bytecode.Cfg

/-
  What a built control-flow graph guarantees.

  `ControlFlowGraph.Ok` is stated over a decoded instruction list: blocks are
  non-empty runs of consecutive instructions, found under the pc of their first
  instruction; an instruction that can branch is the last of its block; a block
  that ends in `catch` has the handler among its successors. `buildCfg_ok`
  establishes it for every graph `buildCfg` returns. The linking of finally
  blocks changes successors only of blocks that end in `ret` (`Relinked`).
-/

namespace QuickJit

open OrdMap OrdSet Outcome

variable {b : BasicBlock} {found : Boundaries} {cfg : ControlFlowGraph} {i : Instruction}
  {blocks blocks' : List BasicBlock} {starts : List Nat} {fuel k maxBlocks pc : Nat}
  {byPc : OrdMap Nat Nat}

/-- The last instruction of a block. -/
def BasicBlock.tail (b : BasicBlock) (is : List Instruction) : Option Instruction :=
  tailBefore is b.last

structure ControlFlowGraph.Ok (is : List Instruction) (cfg : ControlFlowGraph) : Prop where
  /-- Blocks are looked up by their start. -/
  block_iff : ∀ {pc b}, cfg.block pc = some b ↔ b ∈ cfg.blocks ∧ b.startPc = pc
  first_lt : ∀ {b}, b ∈ cfg.blocks → b.first < b.last
  last_le : ∀ {b}, b ∈ cfg.blocks → b.last ≤ is.length
  start_pc : ∀ {b}, b ∈ cfg.blocks → ∃ i, is[b.first]? = some i ∧ i.pc = b.startPc
  /-- Only the last instruction of a block can branch. -/
  inner : ∀ {b}, b ∈ cfg.blocks → ∀ {k i}, b.first ≤ k → k + 1 < b.last → is[k]? = some i →
    i.branchTarget = none
  /-- A `catch` has its handler among the successors of its block. -/
  handler : ∀ {b}, b ∈ cfg.blocks → ∀ {tail}, b.tail is = some tail → tail.name = .catchOp →
    ∀ {target}, tail.targetPc = some target → target ∈ b.successors
  entry : ∃ b, cfg.block 0 = some b
  /-- No instruction belongs to two blocks. -/
  unique : ∀ {b b'}, b ∈ cfg.blocks → b' ∈ cfg.blocks → ∀ {k}, b.first ≤ k → k < b.last →
    b'.first ≤ k → k < b'.last → b = b'
  starts_sorted : (cfg.blocks.map BasicBlock.startPc).Pairwise (· < ·)

/-! ## Boundaries -/

/-- What the scan has put among the boundaries after some instructions. -/
structure ScanOk (pcs : OrdSet Nat) (byteLen : Nat) (seen : List Instruction)
    (found : Boundaries) : Prop where
  zero : 0 ∈ found.starts
  sound : ∀ pc ∈ found.starts, pc = 0 ∨ pc ∈ pcs ∨ ∃ i ∈ seen, followingPc byteLen i = some pc
  following : ∀ i ∈ seen, i.branchTarget.isSome → ∀ pc, followingPc byteLen i = some pc →
    pc ∈ found.starts

theorem mem_insertSome {s : OrdSet Nat} {o : Option Nat} :
    pc ∈ s.insertSome o ↔ o = some pc ∨ pc ∈ s := by
  cases o with
  | none => simp [insertSome]
  | some x => simp [insertSome, eq_comm]

theorem scanInstruction_ok {pcs : OrdSet Nat} {byteLen : Nat} {seen : List Instruction}
    {found' : Boundaries} (h : ScanOk pcs byteLen seen found)
    (hi : scanInstruction pcs byteLen found i = .ok found') :
    ScanOk pcs byteLen (seen ++ [i]) found' := by
  unfold scanInstruction at hi
  split at hi
  case h_1 target ht =>
    rw [ite_reject_eq_ok, ite_reject_eq_ok] at hi
    obtain ⟨-, hin, hi⟩ := hi
    cases hi
    refine ⟨?_, fun pc hpc => ?_, fun j hj hb pc hpc => ?_⟩
    · simp [mem_insertSome, h.zero]
    · simp only [mem_insertSome, mem_insert] at hpc
      rcases hpc with hpc | rfl | hpc
      · exact .inr (.inr ⟨i, by simp, hpc⟩)
      · exact .inr (.inl (not_not.mp hin))
      · rcases h.sound pc hpc with h0 | h1 | ⟨j, hj, hjpc⟩
        · exact .inl h0
        · exact .inr (.inl h1)
        · exact .inr (.inr ⟨j, by simp [hj], hjpc⟩)
    · simp only [mem_insertSome, mem_insert]
      rcases List.mem_append.mp hj with hj | hj
      · exact .inr (.inr (h.following j hj hb pc hpc))
      · rw [List.mem_singleton.mp hj] at hpc
        exact .inl hpc
  case h_2 ht =>
    have hmono : ∀ {starts : OrdSet Nat} {headers : OrdSet Nat},
        (∀ pc, pc ∈ starts ↔ followingPc byteLen i = some pc ∧
          (isTerminal i || isSubroutineReturn i) = true ∨ pc ∈ found.starts) →
        ScanOk pcs byteLen (seen ++ [i]) ⟨starts, headers⟩ := by
      intro starts headers hs
      refine ⟨(hs 0).mpr (.inr h.zero), fun pc hpc => ?_, fun j hj hb pc hpc => ?_⟩
      · rcases (hs pc).mp hpc with ⟨hpc, -⟩ | hpc
        · exact .inr (.inr ⟨i, by simp, hpc⟩)
        · rcases h.sound pc hpc with h0 | h1 | ⟨j, hj, hjpc⟩
          · exact .inl h0
          · exact .inr (.inl h1)
          · exact .inr (.inr ⟨j, by simp [hj], hjpc⟩)
      · rcases List.mem_append.mp hj with hj | hj
        · exact (hs pc).mpr (.inr (h.following j hj hb pc hpc))
        · rw [List.mem_singleton.mp hj, ht] at hb
          cases hb
    split at hi
    case isTrue hterm =>
      cases hi
      exact hmono fun pc => by simp [mem_insertSome, hterm]
    case isFalse hterm =>
      cases hi
      exact hmono fun pc => by simp [hterm]

/-! ## Blocks -/

/-- A block as it comes out of the block loop, `starts` being the boundaries. -/
structure BlockOk (is : List Instruction) (byteLen : Nat) (starts : List Nat) (b : BasicBlock) :
    Prop where
  start_pc : ∃ i, is[b.first]? = some i ∧ i.pc = b.startPc
  first_lt : b.first < b.last
  last_le : b.last ≤ is.length
  below_end : ∀ k i, b.first ≤ k → k < b.last → is[k]? = some i → i.pc < b.endPc
  next_start : ∀ s ∈ starts, b.startPc < s → b.endPc ≤ s
  successors : ∃ tail, b.tail is = some tail ∧ b.successors = tailSuccessors byteLen tail

variable {is : List Instruction} {byteLen : Nat}

theorem pc_injective (hsorted : is.Pairwise (fun a b => a.nextPc ≤ b.pc ∧ a.pc < b.pc)) :
    ((is.zipIdx.map fun (i, index) => (i.pc, index)).map Prod.fst).Nodup := by
  have hmap : (is.zipIdx.map fun (i, index) => (i.pc, index)).map Prod.fst =
      is.map Instruction.pc := by
    rw [List.map_map]
    have : (Prod.fst ∘ fun (x : Instruction × Nat) => (x.1.pc, x.2)) =
        Instruction.pc ∘ Prod.fst := rfl
    rw [this, ← List.map_map, List.zipIdx_map_fst]
  rw [hmap]
  exact (List.pairwise_map.mpr (hsorted.imp fun h => h.2)).imp Nat.ne_of_lt

theorem indexByPc_iff (hsorted : is.Pairwise (fun a b => a.nextPc ≤ b.pc ∧ a.pc < b.pc)) :
    (OrdMap.ofList (is.zipIdx.map fun (i, index) => (i.pc, index))).get? pc = some k ↔
      ∃ i, is[k]? = some i ∧ i.pc = pc := by
  rw [get?_ofList (pc_injective hsorted)]
  simp only [List.mem_map, Prod.exists, Prod.mk.injEq]
  constructor
  · rintro ⟨i, index, hmem, rfl, rfl⟩
    exact ⟨i, by simpa using List.mem_zipIdx_iff_getElem?.mp hmem, rfl⟩
  · rintro ⟨i, hi, rfl⟩
    exact ⟨i, k, List.mem_zipIdx_iff_getElem?.mpr hi, rfl, rfl⟩

theorem tailBefore_some {is : List Instruction} {n : Nat} (h : tailBefore is n = some i) :
    0 < n ∧ is[n - 1]? = some i := by
  cases n with
  | zero => cases h
  | succ n => exact ⟨Nat.succ_pos n, h⟩

theorem buildBlock_ok (hsorted : is.Pairwise (fun a b => a.nextPc ≤ b.pc ∧ a.pc < b.pc))
    {start stop : Nat} (hlt : start < stop) (hnext : ∀ s ∈ starts, start < s → stop ≤ s)
    (h : buildBlock is byteLen (OrdMap.ofList (is.zipIdx.map fun (i, index) => (i.pc, index)))
      start stop = .ok b) :
    BlockOk is byteLen starts b ∧ b.startPc = start := by
  simp only [buildBlock, bind_eq_ok, expect_eq_ok] at h
  obtain ⟨first, hfirst, tail, htail, hb⟩ := h
  cases hb
  obtain ⟨i, hi, hpc⟩ := (indexByPc_iff hsorted).mp hfirst
  have hlen : first < is.length := (List.getElem?_eq_some_iff.mp hi).1
  set p : Instruction → Bool := fun i => decide (stop ≤ i.pc) with hp
  have hbelow : ∀ k j, first ≤ k → k < first + (is.drop first).findIdx p → is[k]? = some j →
      j.pc < stop := by
    intro k j hk hk' hj
    obtain ⟨n, rfl⟩ := Nat.exists_eq_add_of_le hk
    have hn : n < (is.drop first).findIdx p := by omega
    have hfalse := List.not_of_lt_findIdx hn
    have hget : (is.drop first)[n]? = some j := by rw [List.getElem?_drop]; exact hj
    rw [(List.getElem?_eq_some_iff.mp hget).2] at hfalse
    simpa [hp] using hfalse
  have hpos : 0 < (is.drop first).findIdx p := by
    have hdrop : is.drop first = i :: is.drop (first + 1) := by
      rw [List.drop_eq_getElem_cons hlen, (List.getElem?_eq_some_iff.mp hi).2]
    have hi : p i = false := by simp [hp, hpc, hlt]
    simp [hdrop, List.findIdx_cons, hi]
  have hle : (is.drop first).findIdx p ≤ is.length - first := by
    rw [← List.length_drop]
    exact List.findIdx_le_length
  refine ⟨⟨⟨i, hi, hpc⟩, by simpa using hpos, by simpa using (by omega), hbelow, hnext,
    tail, htail, rfl⟩, rfl⟩

theorem buildBlocks_ok (hsorted : is.Pairwise (fun a b => a.nextPc ≤ b.pc ∧ a.pc < b.pc))
    {all : List Nat} (hall : all.Pairwise (· < ·)) (hlt : ∀ s ∈ all, s < byteLen) :
    ∀ {starts pre : List Nat} {blocks : List BasicBlock}, all = pre ++ starts →
      buildBlocks is byteLen (OrdMap.ofList (is.zipIdx.map fun (i, index) => (i.pc, index)))
        starts = .ok blocks →
      (∀ b ∈ blocks, BlockOk is byteLen all b) ∧ blocks.map BasicBlock.startPc = starts
  | [], _, blocks, _, h => by
    cases h
    simp
  | start :: rest, pre, blocks, heq, h => by
    simp only [buildBlocks, bind_eq_ok] at h
    obtain ⟨b, hb, bs, hbs, hcons⟩ := h
    cases hcons
    have hsuffix : (start :: rest).Pairwise (· < ·) := by
      rw [heq] at hall
      exact (List.pairwise_append.mp hall).2.1
    -- a boundary behind `start` is one of the remaining boundaries
    have hrest : ∀ s ∈ all, start < s → s ∈ rest := by
      intro s hs hss
      rw [heq] at hs hall
      rcases List.mem_append.mp hs with hs | hs
      · have := (List.pairwise_append.mp hall).2.2 s hs start (by simp)
        omega
      · rcases List.mem_cons.mp hs with rfl | hs
        · omega
        · exact hs
    have hnext : ∀ s ∈ all, start < s → rest.head?.getD byteLen ≤ s := by
      intro s hs hss
      have hmem := hrest s hs hss
      cases rest with
      | nil => cases hmem
      | cons t rest =>
        rcases List.mem_cons.mp hmem with rfl | hmem
        · simp
        · exact Nat.le_of_lt ((List.pairwise_cons.mp (List.pairwise_cons.mp hsuffix).2).1 s hmem)
    have hstop : start < rest.head?.getD byteLen := by
      cases rest with
      | nil => exact hlt start (by simp [heq])
      | cons t rest => exact (List.pairwise_cons.mp hsuffix).1 t (by simp)
    obtain ⟨hok, hpc⟩ := buildBlock_ok hsorted hstop hnext hb
    obtain ⟨hoks, hpcs⟩ := buildBlocks_ok hsorted hall hlt
      (show all = (pre ++ [start]) ++ rest by simp [heq]) hbs
    exact ⟨by simpa using ⟨hok, hoks⟩, by simp [hpc, hpcs]⟩

/-! ## Finally blocks -/

/-- A block before and after the finally blocks are linked. -/
structure Relinked (is : List Instruction) (b b' : BasicBlock) : Prop where
  startPc : b'.startPc = b.startPc
  first : b'.first = b.first
  last : b'.last = b.last
  successors : b'.successors = b.successors ∨ ∃ tail, b.tail is = some tail ∧ tail.name = .ret

/-- Linked block lists correspond block by block. -/
def RelinkedBlocks (is : List Instruction) (blocks blocks' : List BasicBlock) : Prop :=
  List.Forall₂ (Relinked is) blocks blocks'

theorem RelinkedBlocks.refl (blocks : List BasicBlock) : RelinkedBlocks is blocks blocks :=
  List.forall₂_same.mpr fun _ _ => ⟨rfl, rfl, rfl, .inl rfl⟩

theorem RelinkedBlocks.startPcs (h : RelinkedBlocks is blocks blocks') :
    blocks'.map BasicBlock.startPc = blocks.map BasicBlock.startPc := by
  unfold RelinkedBlocks at h
  induction h with
  | nil => rfl
  | cons hb _ ih => rw [List.map_cons, List.map_cons, hb.startPc, ih]

/-- Every owner found belongs to a block that ends in `ret`. -/
def OwnersOk (is : List Instruction) (blocks : List BasicBlock) (owners : OrdMap Nat Nat) : Prop :=
  ∀ index owner, owners.get? index = some owner →
    ∃ b tail, blocks[index]? = some b ∧ b.tail is = some tail ∧ tail.name = .ret

theorem ownerStep_ok {entry : Nat} {w w' : OwnerWalk} (hw : OwnersOk is blocks w.owners)
    (h : ownerStep is blocks byPc entry w = .ok (some w')) : OwnersOk is blocks w'.owners := by
  unfold ownerStep at h
  split at h
  · cases h
  · split at h
    · cases h
      exact hw
    · simp only [bind_eq_ok, okOr_eq_ok, expect_eq_ok] at h
      obtain ⟨index, -, b, hb, tail, htail, h⟩ := h
      split at h
      case isTrue hret =>
        rw [ite_reject_eq_ok] at h
        cases h.2
        intro k owner hk
        rcases get?_insert_cases hk with ⟨rfl, -⟩ | hk
        · exact ⟨b, tail, hb, htail, hret⟩
        · exact hw k owner hk
      · split at h
        · obtain ⟨_, -, h⟩ := bind_eq_ok.mp h
          cases h
          exact hw
        · cases h
          exact hw

theorem walkOwners_ok {owners owners' : OrdMap Nat Nat} {entry : Nat}
    (hw : OwnersOk is blocks owners) (h : walkOwners fuel is blocks byPc owners entry = .ok owners') :
    OwnersOk is blocks owners' := by
  simp only [walkOwners, bind_eq_ok] at h
  obtain ⟨w, hrun, hres⟩ := h
  cases hres
  exact (iterate_inv (P := fun w => OwnersOk is blocks w.owners)
    (fun _ _ => ownerStep_ok) hrun hw).1

theorem relinked_modify {index : Nat} {successors : List Nat}
    (hrel : RelinkedBlocks is blocks blocks')
    (hret : ∃ b tail, blocks[index]? = some b ∧ b.tail is = some tail ∧ tail.name = .ret) :
    RelinkedBlocks is blocks (blocks'.modify index fun b => { b with successors }) := by
  unfold RelinkedBlocks at hrel ⊢
  induction hrel generalizing index with
  | nil => simp
  | cons hb _ ih =>
    obtain ⟨b, tail, hget, htail, hname⟩ := hret
    cases index with
    | zero =>
      rw [List.modify_zero_cons]
      refine .cons ⟨hb.startPc, hb.first, hb.last, .inr ⟨tail, ?_, hname⟩⟩ ‹_›
      rw [List.getElem?_cons_zero, Option.some.injEq] at hget
      rw [hget]
      exact htail
    | succ n =>
      rw [List.modify_succ_cons]
      exact .cons hb (ih ⟨b, tail, by simpa using hget, htail, hname⟩)

theorem linkSubroutineReturns_ok (h : linkSubroutineReturns fuel is blocks byPc = .ok blocks') :
    RelinkedBlocks is blocks blocks' := by
  simp only [linkSubroutineReturns, bind_eq_ok] at h
  obtain ⟨points, -, owners, howners, h⟩ := h
  have hok : OwnersOk is blocks owners :=
    foldlM_preserves howners (fun _ _ hget => by simp at hget)
      (fun _ _ _ _ hw => walkOwners_ok hw)
  refine foldlM_preserves h (RelinkedBlocks.refl blocks) ?_
  rintro ⟨index, owner⟩ hmem bs bs' hbs hset
  simp only [setSuccessors, bind_eq_ok] at hset
  obtain ⟨returns, -, hset⟩ := hset
  cases hset
  exact relinked_modify hbs (hok index owner (mem_entries.mp hmem))

/-! ## The whole graph -/

theorem byPc_iff (hsorted : (blocks.map BasicBlock.startPc).Pairwise (· < ·))
    (hrel : RelinkedBlocks is blocks blocks') :
    (((OrdMap.ofList (blocks.zipIdx.map fun (b, index) => (b.startPc, index))).get? pc).bind
      fun index => blocks'[index]?) = some b ↔ b ∈ blocks' ∧ b.startPc = pc := by
  have hstarts := hrel.startPcs
  have hkeys : (blocks.zipIdx.map fun (b, index) => (b.startPc, index)).map Prod.fst =
      blocks.map BasicBlock.startPc := by
    rw [List.map_map]
    have : (Prod.fst ∘ fun (x : BasicBlock × Nat) => (x.1.startPc, x.2)) =
        BasicBlock.startPc ∘ Prod.fst := rfl
    rw [this, ← List.map_map, List.zipIdx_map_fst]
  have hget : ∀ {index : Nat},
      (OrdMap.ofList (blocks.zipIdx.map fun (b, index) => (b.startPc, index))).get? pc =
        some index ↔ (blocks'.map BasicBlock.startPc)[index]? = some pc := by
    intro index
    rw [get?_ofList (by rw [hkeys]; exact hsorted.imp Nat.ne_of_lt), hstarts]
    simp [List.mem_zipIdx_iff_getElem?]
  simp only [Option.bind_eq_some_iff, hget, List.getElem?_map, Option.map_eq_some_iff]
  constructor
  · rintro ⟨index, ⟨b', hb', rfl⟩, hb⟩
    rw [hb'] at hb
    cases hb
    exact ⟨List.mem_of_getElem? hb', rfl⟩
  · rintro ⟨hmem, rfl⟩
    obtain ⟨index, hb⟩ := List.mem_iff_getElem?.mp hmem
    exact ⟨index, ⟨b, hb, rfl⟩, hb⟩

theorem boundary_pc (hcov : Covers byteLen 0 is) (hne : is ≠ [])
    (hscan : ScanOk (ofList (is.map Instruction.pc)) byteLen is found) :
    ∀ pc ∈ found.starts, pc < byteLen := by
  have hlt : ∀ i ∈ is, i.pc < byteLen := fun i hi => by
    have := hcov.pc_le i hi
    omega
  intro pc hpc
  rcases hscan.sound pc hpc with rfl | h | ⟨i, -, h⟩
  · obtain ⟨i, hi⟩ := List.exists_mem_of_ne_nil is hne
    have := hlt i hi
    omega
  · obtain ⟨i, hi, rfl⟩ := List.mem_map.mp (mem_ofList.mp h)
    exact hlt i hi
  · unfold followingPc at h
    split at h
    · cases h
      assumption
    · cases h

/-- The facts of a block survive linking. -/
theorem Relinked.handler {b' : BasicBlock} (hrel : Relinked is b b')
    (hok : BlockOk is byteLen starts b) {tail : Instruction} (htail : b'.tail is = some tail)
    (hname : tail.name = .catchOp) {target : Nat} (htarget : tail.targetPc = some target) :
    target ∈ b'.successors := by
  obtain ⟨t, ht, hsucc⟩ := hok.successors
  have htt : t = tail := by
    have : b.tail is = some tail := by rw [← htail, BasicBlock.tail, BasicBlock.tail, hrel.last]
    exact Option.some.inj (ht.symm.trans this)
  subst htt
  rcases hrel.successors with hs | ⟨t', ht', hret⟩
  · rw [hs, hsucc]
    obtain ⟨target', hbranch, hpos⟩ := Option.bind_eq_some_iff.mp htarget
    split at hpos
    · cases hpos
      rw [tailSuccessors, mem_elems, mem_ofList, hbranch]
      simp
    · cases hpos
  · have : t' = t := Option.some.inj (ht'.symm.trans ht)
    rw [this, hname] at hret
    cases hret

theorem BlockOk.start_le (hcov : Covers byteLen 0 is) (hok : BlockOk is byteLen starts b)
    (hk : b.first ≤ k) (hi : is[k]? = some i) : b.startPc ≤ i.pc := by
  obtain ⟨i₀, hi₀, hpc₀⟩ := hok.start_pc
  have hlen : k < is.length := (List.getElem?_eq_some_iff.mp hi).1
  rcases Nat.eq_or_lt_of_le hk with rfl | hlt
  · rw [hi₀] at hi
    cases hi
    exact Nat.le_of_eq hpc₀.symm
  · have hpair := List.pairwise_iff_getElem.mp hcov.sorted b.first k (by omega) hlen hlt
    rw [(List.getElem?_eq_some_iff.mp hi₀).2, (List.getElem?_eq_some_iff.mp hi).2] at hpair
    omega

theorem inner_no_branch (hcov : Covers byteLen 0 is) (hok : BlockOk is byteLen starts b)
    (hfollow : ∀ i ∈ is, i.branchTarget.isSome → ∀ pc, followingPc byteLen i = some pc →
      pc ∈ starts) (hk : b.first ≤ k) (hlast : k + 1 < b.last) (hi : is[k]? = some i) :
    i.branchTarget = none := by
  by_contra hbranch
  have hlen : k + 1 < is.length := Nat.lt_of_lt_of_le hlast hok.last_le
  obtain ⟨j, hj⟩ : ∃ j, is[k + 1]? = some j := ⟨_, List.getElem?_eq_getElem hlen⟩
  have hadj : j.pc = i.nextPc := hcov.adjacent hi hj
  have hjlt := hcov.pc_le j (List.mem_of_getElem? hj)
  have hilt := hcov.pc_le i (List.mem_of_getElem? hi)
  -- the pc behind the branch is a boundary strictly inside the block
  have hmem : j.pc ∈ starts := by
    refine hfollow i (List.mem_of_getElem? hi) (Option.isSome_iff_ne_none.mpr hbranch) _ ?_
    unfold followingPc
    rw [if_pos (by omega), hadj]
  have hstart : b.startPc ≤ i.pc := hok.start_le hcov hk hi
  have hend := hok.next_start j.pc hmem (by omega)
  have hbelow := hok.below_end (k + 1) j (by omega) hlast hj
  omega

/-- Two blocks that share an instruction start at one pc. -/
theorem BlockOk.startPc_le (hcov : Covers byteLen 0 is) {b' : BasicBlock}
    (hok : BlockOk is byteLen starts b) (hok' : BlockOk is byteLen starts b')
    (hmem : b'.startPc ∈ starts) (hk : b.first ≤ k) (hlast : k < b.last) (hk' : b'.first ≤ k) :
    b'.startPc ≤ b.startPc := by
  have hlen : k < is.length := Nat.lt_of_lt_of_le hlast hok.last_le
  have hi : is[k]? = some is[k] := List.getElem?_eq_getElem hlen
  by_contra hlt
  have hend := hok.next_start _ hmem (by omega)
  have hbelow := hok.below_end k _ hk hlast hi
  have hstart := hok'.start_le hcov hk' hi
  omega

/-- How `buildCfg` comes by the blocks of its graph. -/
structure BlocksBuilt (is : List Instruction) (byteLen : Nat) (found : Boundaries)
    (blocks : List BasicBlock) (cfg : ControlFlowGraph) : Prop where
  scanned : ScanOk (OrdSet.ofList (is.map Instruction.pc)) byteLen is found
  blocks_ok : ∀ b ∈ blocks, BlockOk is byteLen found.starts.elems b
  starts : blocks.map BasicBlock.startPc = found.starts.elems
  relinked : RelinkedBlocks is blocks cfg.blocks
  byPc : cfg.byPc = OrdMap.ofList (blocks.zipIdx.map fun (b, index) => (b.startPc, index))

theorem buildCfg_built (hcov : Covers byteLen 0 is)
    (h : buildCfg fuel is byteLen maxBlocks = .ok cfg) :
    ∃ found blocks, BlocksBuilt is byteLen found blocks cfg := by
  unfold buildCfg at h
  split at h
  · cases h
  case isFalse hempty =>
  have hne : is ≠ [] := fun h0 => hempty (by simp [h0])
  simp only [bind_eq_ok] at h
  obtain ⟨found, hfound, h⟩ := h
  rw [ite_reject_eq_ok] at h
  simp only [bind_eq_ok] at h
  obtain ⟨-, blocks, hblocks, blocks', hlink, h⟩ := h
  cases h
  have hscan : ScanOk (ofList (is.map Instruction.pc)) byteLen is found :=
    foldlM_inv (P := ScanOk _ byteLen) hfound
      ⟨by simp, fun pc hpc => .inl (by simpa using hpc), fun _ hi => by cases hi⟩
      (fun _ _ _ _ _ _ hok hstep => scanInstruction_ok hok hstep)
  obtain ⟨hok, hstarts⟩ := buildBlocks_ok hcov.sorted found.starts.sorted
    (boundary_pc hcov hne hscan) (List.nil_append _).symm hblocks
  exact ⟨found, blocks, hscan, hok, hstarts, linkSubroutineReturns_ok hlink, rfl⟩

theorem BlocksBuilt.block (h : BlocksBuilt is byteLen found blocks cfg) (hb : b ∈ cfg.blocks) :
    ∃ b₀, BlockOk is byteLen found.starts.elems b₀ ∧ Relinked is b₀ b :=
  (forall₂_mem_right h.relinked hb).imp fun b₀ hrel => ⟨h.blocks_ok b₀ hrel.1, hrel.2⟩

theorem length_ofList_le (l : List Nat) : (ofList l).elems.length ≤ l.length := by
  have hnodup : (ofList l).elems.Nodup := (ofList l).sorted.imp Nat.ne_of_lt
  exact (List.subperm_of_subset hnodup fun _ hx => mem_ofList.mp hx).length_le

theorem tailSuccessors_length (byteLen : Nat) (tail : Instruction) :
    (tailSuccessors byteLen tail).length ≤ 2 := by
  have hnext : (followingPc byteLen tail).toList.length ≤ 1 := Option.length_toList_le
  unfold tailSuccessors
  refine (length_ofList_le _).trans ?_
  split
  · split
    · exact Nat.le_succ _
    · exact Nat.succ_le_succ hnext
  · split
    · exact Nat.zero_le _
    · exact hnext.trans (Nat.le_succ _)

/-- At most two edges leave a block that does not end in `ret`. -/
theorem buildCfg_successors (hcov : Covers byteLen 0 is)
    (h : buildCfg fuel is byteLen maxBlocks = .ok cfg) (hret : ∀ i ∈ is, i.name ≠ .ret) :
    ∀ b ∈ cfg.blocks, b.successors.length ≤ 2 := by
  obtain ⟨found, blocks, hbuilt⟩ := buildCfg_built hcov h
  intro b hb
  obtain ⟨b₀, hok₀, hrel₀⟩ := hbuilt.block hb
  obtain ⟨tail, -, hsuccessors⟩ := hok₀.successors
  rcases hrel₀.successors with hsame | ⟨tail', htail', hname⟩
  · rw [hsame, hsuccessors]
    exact tailSuccessors_length byteLen tail
  · exact absurd hname (hret tail' (List.mem_of_getElem? (tailBefore_some htail').2))

/-- Every graph `buildCfg` returns for decoded instructions is as stated. -/
theorem buildCfg_ok (hcov : Covers byteLen 0 is) (h : buildCfg fuel is byteLen maxBlocks = .ok cfg) :
    cfg.Ok is := by
  obtain ⟨found, blocks, hbuilt⟩ := buildCfg_built hcov h
  have hscan := hbuilt.scanned
  have hok := hbuilt.blocks_ok
  have hstarts := hbuilt.starts
  have hrel := hbuilt.relinked
  have hsorted : (blocks.map BasicBlock.startPc).Pairwise (· < ·) := hstarts ▸ found.starts.sorted
  have hsame : cfg.blocks.map BasicBlock.startPc = blocks.map BasicBlock.startPc :=
    hrel.startPcs
  have hpre : ∀ b ∈ cfg.blocks, ∃ b₀, BlockOk is byteLen found.starts.elems b₀ ∧ Relinked is b₀ b :=
    fun b hb => hbuilt.block hb
  have hmem : ∀ b ∈ cfg.blocks, b.startPc ∈ found.starts.elems := fun b hb => by
    have h := List.mem_map_of_mem (f := BasicBlock.startPc) hb
    rwa [hsame, hstarts] at h
  have hblock : ∀ {pc : Nat} {b : BasicBlock},
      cfg.block pc = some b ↔ b ∈ cfg.blocks ∧ b.startPc = pc := by
    intro pc b
    rw [ControlFlowGraph.block, hbuilt.byPc]
    exact byPc_iff hsorted hrel
  refine {
    block_iff := hblock
    first_lt := fun {b} hb => ?_
    last_le := fun {b} hb => ?_
    start_pc := fun {b} hb => ?_
    inner := fun {b} hb k i hk hlast hi => ?_
    handler := fun {b} hb tail htail hname target htarget => ?_
    entry := ?_
    unique := fun {b b'} hb hb' k hk hlast hk' hlast' => ?_
    starts_sorted := hsame ▸ hsorted }
  · obtain ⟨b₀, hok₀, hrel₀⟩ := hpre b hb
    rw [hrel₀.first, hrel₀.last]
    exact hok₀.first_lt
  · obtain ⟨b₀, hok₀, hrel₀⟩ := hpre b hb
    rw [hrel₀.last]
    exact hok₀.last_le
  · obtain ⟨b₀, hok₀, hrel₀⟩ := hpre b hb
    rw [hrel₀.first, hrel₀.startPc]
    exact hok₀.start_pc
  · obtain ⟨b₀, hok₀, hrel₀⟩ := hpre b hb
    rw [hrel₀.first] at hk
    rw [hrel₀.last] at hlast
    exact inner_no_branch hcov hok₀ hscan.following hk hlast hi
  · obtain ⟨b₀, hok₀, hrel₀⟩ := hpre b hb
    exact hrel₀.handler hok₀ htail hname htarget
  · have hzero : (0 : Nat) ∈ cfg.blocks.map BasicBlock.startPc := by
      rw [hsame, hstarts]
      exact hscan.zero
    obtain ⟨b, hb, hpc⟩ := List.mem_map.mp hzero
    exact ⟨b, hblock.mpr ⟨hb, hpc⟩⟩
  · obtain ⟨b₀, hok₀, hrel₀⟩ := hpre b hb
    obtain ⟨b₁, hok₁, hrel₁⟩ := hpre b' hb'
    have hmem₀ := hmem b hb
    have hmem₁ := hmem b' hb'
    rw [hrel₀.startPc] at hmem₀
    rw [hrel₁.startPc] at hmem₁
    rw [hrel₀.first] at hk
    rw [hrel₀.last] at hlast
    rw [hrel₁.first] at hk'
    rw [hrel₁.last] at hlast'
    have hpc : b'.startPc = b.startPc := by
      rw [hrel₀.startPc, hrel₁.startPc]
      exact Nat.le_antisymm (hok₀.startPc_le hcov hok₁ hmem₁ hk hlast hk')
        (hok₁.startPc_le hcov hok₀ hmem₀ hk' hlast' hk)
    exact Option.some.inj ((hblock.mpr ⟨hb, rfl⟩).symm.trans (hblock.mpr ⟨hb', hpc⟩))

end QuickJit
