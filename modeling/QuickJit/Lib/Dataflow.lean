import QuickJit.Lib.OrdMap
import QuickJit.Lib.Outcome

/-
  Forward dataflow analyses driven by a worklist.

  A node is taken from the queue, its state is transferred to states for other
  nodes, and each of those is merged into what its node already has; a node
  whose state is new or has changed is queued. `σ` is what the analysis collects
  on the side while it transfers.

  `walk_settled` is the result of a walk that ends: every node with a state has
  been transferred in exactly that state, and what came out is below the states
  of the nodes it went to. `walk_fails` is the other case: given a budget for
  every change a state can undergo, the walk fails only where a transfer does.
-/

namespace QuickJit

open OrdMap Outcome

variable {κ L σ ε : Type} [LinearOrder κ]

/-- A dataflow problem over nodes `κ` and states `L`. `merge` gives the merged
state and whether it differs from the old one; `enqueue` decides where, and
whether again, a node is queued. -/
structure Dataflow (κ L σ ε : Type) [LinearOrder κ] where
  transfer : σ → κ → L → Outcome ε (σ × List (κ × L))
  merge : κ → Option L → L → Outcome ε (L × Bool)
  enqueue : List κ → κ → List κ
  missing : ε
  exhausted : Stop ε

namespace Dataflow

/-- Merge one state into its node. -/
def offer (d : Dataflow κ L σ ε) (w : OrdMap κ L × List κ) (out : κ × L) :
    Outcome ε (OrdMap κ L × List κ) := do
  let (merged, changed) ← d.merge out.1 (w.1.get? out.1) out.2
  .ok (w.1.insert out.1 merged, if changed then d.enqueue w.2 out.1 else w.2)

/-- Work the queue off, one node for each unit of the budget. -/
def walk (d : Dataflow κ L σ ε) : Nat → σ → OrdMap κ L → List κ → Outcome ε (σ × OrdMap κ L)
  | _, s, entries, [] => .ok (s, entries)
  | 0, _, _, _ :: _ => .error d.exhausted
  | budget + 1, s, entries, k :: queue => do
    let a ← Outcome.okOr d.missing (entries.get? k)
    let (s, outs) ← d.transfer s k a
    let w ← outs.foldlM d.offer (entries, queue)
    d.walk budget s w.1 w.2

theorem walk_turn {d : Dataflow κ L σ ε} {budget : Nat} {s : σ} {entries : OrdMap κ L} {k : κ}
    {queue : List κ} {a : L} (ha : entries.get? k = some a) :
    d.walk (budget + 1) s entries (k :: queue) =
      d.transfer s k a >>= fun r => r.2.foldlM d.offer (entries, queue) >>= fun w =>
        d.walk budget r.1 w.1 w.2 := by
  rw [walk, ha]
  rfl

/-! ## Laws -/

/-- What the walk relies on. `Holds` is an invariant of the states; states only
grow along `Below`, and what is collected along `Grows`. -/
structure Lawful (d : Dataflow κ L σ ε) (Holds : κ → L → Prop) (Below : L → L → Prop)
    (Grows : σ → σ → Prop) : Prop where
  below_refl : ∀ a, Below a a
  below_trans : ∀ {a b c}, Below a b → Below b c → Below a c
  grows_refl : ∀ s, Grows s s
  grows_trans : ∀ {s t u}, Grows s t → Grows t u → Grows s u
  transfer_grows : ∀ {s k a s' outs}, d.transfer s k a = .ok (s', outs) → Grows s s'
  transfer_holds : ∀ {s k a s' outs}, Holds k a → d.transfer s k a = .ok (s', outs) →
    ∀ out ∈ outs, Holds out.1 out.2
  merge_holds : ∀ {k old a m changed}, d.merge k old a = .ok (m, changed) →
    (∀ e, old = some e → Holds k e) → Holds k a → Holds k m
  merge_above : ∀ {k old a m changed}, d.merge k old a = .ok (m, changed) →
    (∀ e, old = some e → Holds k e) → Holds k a → Below a m ∧ ∀ e, old = some e → Below e m
  merge_same : ∀ {k old a m}, d.merge k old a = .ok (m, false) → old = some m
  mem_enqueue : ∀ {queue k x}, x ∈ d.enqueue queue k ↔ x = k ∨ x ∈ queue

/-- The invariant holds of every state. -/
def AllHold (Holds : κ → L → Prop) (entries : OrdMap κ L) : Prop :=
  ∀ k a, entries.get? k = some a → Holds k a

/-- A state that went to a node is below the node's own. -/
def Covered (Below : L → L → Prop) (entries : OrdMap κ L) (out : κ × L) : Prop :=
  ∃ a, entries.get? out.1 = some a ∧ Below out.2 a

/-- Node `k` has been transferred in state `a`, and all that came out is covered. -/
def Settled (d : Dataflow κ L σ ε) (Below : L → L → Prop) (Grows : σ → σ → Prop) (s : σ)
    (entries : OrdMap κ L) (k : κ) (a : L) : Prop :=
  ∃ s₀ s₁ outs, d.transfer s₀ k a = .ok (s₁, outs) ∧ Grows s₁ s ∧
    ∀ out ∈ outs, Covered Below entries out

/-- The invariant of the walk: a node with a state is queued or settled. -/
structure Sound (d : Dataflow κ L σ ε) (Holds : κ → L → Prop) (Below : L → L → Prop)
    (Grows : σ → σ → Prop) (s : σ) (entries : OrdMap κ L) (queue : List κ) : Prop where
  holds : AllHold Holds entries
  queued : ∀ k ∈ queue, ∃ a, entries.get? k = some a
  settled : ∀ k a, entries.get? k = some a →
    k ∈ queue ∨ d.Settled Below Grows s entries k a

/-- What merging some states does to the entries and the queue. -/
structure Offered (Holds : κ → L → Prop) (Below : L → L → Prop) (outs : List (κ × L))
    (w w' : OrdMap κ L × List κ) : Prop where
  holds : AllHold Holds w'.1
  above : ∀ k a, w.1.get? k = some a → Covered Below w'.1 (k, a)
  changed : ∀ k a, w'.1.get? k = some a → k ∈ w'.2 ∨ w.1.get? k = some a
  keeps : ∀ k ∈ w.2, k ∈ w'.2
  queued : ∀ k ∈ w'.2, k ∈ w.2 ∨ ∃ a, w'.1.get? k = some a
  covered : ∀ out ∈ outs, Covered Below w'.1 out

section Settling

variable {d : Dataflow κ L σ ε} {Holds : κ → L → Prop} {Below : L → L → Prop}
  {Grows : σ → σ → Prop}

theorem Lawful.offered (hd : d.Lawful Holds Below Grows) {outs : List (κ × L)}
    {w w₁ w₂ : OrdMap κ L × List κ} {out : κ × L} (hw : Offered Holds Below outs w w₁)
    (hout : Holds out.1 out.2) (h : d.offer w₁ out = .ok w₂) :
    Offered Holds Below (outs ++ [out]) w w₂ := by
  obtain ⟨⟨m, changed⟩, hm, hw₂⟩ := bind_eq_ok.mp h
  cases hw₂
  have hold : ∀ e, w₁.1.get? out.1 = some e → Holds out.1 e := fun e he => hw.holds _ _ he
  obtain ⟨hout_m, hold_m⟩ := hd.merge_above hm hold hout
  -- the entries of the other nodes stay, that of `out` goes up
  have hgrows : ∀ x, Covered Below w₁.1 x → Covered Below (w₁.1.insert out.1 m) x := by
    rintro ⟨k, a⟩ ⟨b, hb, hab⟩
    by_cases hk : out.1 = k
    · subst hk
      exact ⟨m, get?_insert_self _ _ _, hd.below_trans hab (hold_m b hb)⟩
    · exact ⟨b, (get?_insert_ne _ m hk).trans hb, hab⟩
  have hqueue : ∀ k, k ∈ w₁.2 → k ∈ if changed then d.enqueue w₁.2 out.1 else w₁.2 := by
    intro k hk
    split
    · exact hd.mem_enqueue.mpr (.inr hk)
    · exact hk
  refine ⟨?_, fun k a hk => hgrows _ (hw.above k a hk), ?_, fun k hk => hqueue k (hw.keeps k hk),
    ?_, ?_⟩
  · intro k a hk
    rcases get?_insert_cases hk with ⟨rfl, rfl⟩ | hk
    · exact hd.merge_holds hm hold hout
    · exact hw.holds k a hk
  · intro k a hk
    rcases get?_insert_cases hk with ⟨rfl, rfl⟩ | hk
    · cases changed with
      | true => exact .inl (hd.mem_enqueue.mpr (.inl rfl))
      | false =>
        have hsame := hd.merge_same hm
        exact (hw.changed _ _ hsame).imp (hqueue _) id
    · exact (hw.changed k a hk).imp (hqueue k) id
  · intro k hk
    have hcases : k = out.1 ∨ k ∈ w₁.2 := by
      split at hk
      · exact hd.mem_enqueue.mp hk
      · exact .inr hk
    rcases hcases with rfl | hk
    · exact .inr ⟨m, get?_insert_self _ _ _⟩
    · refine (hw.queued k hk).imp id ?_
      rintro ⟨a, ha⟩
      obtain ⟨b, hb, -⟩ := hgrows (k, a) ⟨a, ha, hd.below_refl a⟩
      exact ⟨b, hb⟩
  · intro x hx
    rcases List.mem_append.mp hx with hx | hx
    · exact hgrows x (hw.covered x hx)
    · obtain rfl := List.mem_singleton.mp hx
      exact ⟨m, get?_insert_self _ _ _, hout_m⟩

theorem Lawful.offers (hd : d.Lawful Holds Below Grows) {outs : List (κ × L)}
    {w w' : OrdMap κ L × List κ} (hw : AllHold Holds w.1) (houts : ∀ out ∈ outs, Holds out.1 out.2)
    (h : outs.foldlM d.offer w = .ok w') : Offered Holds Below outs w w' := by
  refine foldlM_inv (P := fun done w₁ => Offered Holds Below done w w₁) h ?_ ?_
  · exact ⟨hw, fun k a hk => ⟨a, hk, hd.below_refl a⟩, fun k a hk => .inr hk, fun k hk => hk,
      fun k hk => .inl hk, fun out hout => by cases hout⟩
  · intro pre out post w₁ w₂ hl hpre hstep
    exact hd.offered hpre (houts out (by simp [hl])) hstep

theorem Sound.turn (hd : d.Lawful Holds Below Grows) {s s' : σ} {entries : OrdMap κ L} {k : κ}
    {queue : List κ} {a : L} {outs : List (κ × L)} {w : OrdMap κ L × List κ}
    (h : d.Sound Holds Below Grows s entries (k :: queue)) (ha : entries.get? k = some a)
    (ht : d.transfer s k a = .ok (s', outs)) (hw : outs.foldlM d.offer (entries, queue) = .ok w) :
    d.Sound Holds Below Grows s' w.1 w.2 ∧ Offered Holds Below outs (entries, queue) w := by
  have hoffered := hd.offers h.holds (hd.transfer_holds (h.holds k a ha) ht) hw
  refine ⟨⟨hoffered.holds, ?_, ?_⟩, hoffered⟩
  · intro j hj
    rcases hoffered.queued j hj with hj | hj
    · obtain ⟨b, hb⟩ := h.queued j (List.mem_cons_of_mem k hj)
      obtain ⟨c, hc, -⟩ := hoffered.above j b hb
      exact ⟨c, hc⟩
    · exact hj
  · intro j b hj
    rcases hoffered.changed j b hj with hj | hj
    · exact .inl hj
    · -- the state of `j` is the one from before the turn
      by_cases hk : j = k
      · subst hk
        obtain rfl : a = b := Option.some.inj (ha.symm.trans hj)
        exact .inr ⟨s, s', outs, ht, hd.grows_refl s', hoffered.covered⟩
      · rcases h.settled j b hj with hqueue | ⟨s₀, s₁, outs₀, ht₀, hs₁, hcov⟩
        · exact .inl (hoffered.keeps j ((List.mem_cons.mp hqueue).resolve_left hk))
        · refine .inr ⟨s₀, s₁, outs₀, ht₀, hd.grows_trans hs₁ (hd.transfer_grows ht), ?_⟩
          intro out hout
          obtain ⟨c, hc, hbelow⟩ := hcov out hout
          obtain ⟨c', hc', hbelow'⟩ := hoffered.above _ _ hc
          exact ⟨c', hc', hd.below_trans hbelow hbelow'⟩

/-- A walk that ends has settled every node it found. -/
theorem walk_settled (hd : d.Lawful Holds Below Grows) :
    ∀ {budget : Nat} {s s' : σ} {entries entries' : OrdMap κ L} {queue : List κ},
      d.Sound Holds Below Grows s entries queue →
      d.walk budget s entries queue = .ok (s', entries') →
      d.Sound Holds Below Grows s' entries' [] ∧
        ∀ k a, entries.get? k = some a → Covered Below entries' (k, a)
  | _, s, s', entries, entries', [], hsound, h => by
    simp only [walk] at h
    cases h
    exact ⟨hsound, fun k a hk => ⟨a, hk, hd.below_refl a⟩⟩
  | 0, _, _, _, _, _ :: _, _, h => by
    simp only [walk] at h
    cases h
  | budget + 1, s, s', entries, entries', k :: queue, hsound, h => by
    obtain ⟨a, ha⟩ := hsound.queued k List.mem_cons_self
    rw [walk_turn ha] at h
    obtain ⟨⟨s₁, outs⟩, ht, h⟩ := bind_eq_ok.mp h
    obtain ⟨w, hw, h⟩ := bind_eq_ok.mp h
    obtain ⟨hsound₁, hoffered⟩ := hsound.turn hd ha ht hw
    obtain ⟨hsettled, habove⟩ := walk_settled hd hsound₁ h
    refine ⟨hsettled, fun j b hj => ?_⟩
    obtain ⟨c, hc, hbc⟩ := hoffered.above j b hj
    obtain ⟨e, he, hce⟩ := habove j c hc
    exact ⟨e, he, hd.below_trans hbc hce⟩

end Settling

/-! ## The budget -/

/-- States have a rank, at most `height`, that every change raises, and only the
finitely many `nodes` have one. -/
structure Bounded (d : Dataflow κ L σ ε) (Holds : κ → L → Prop) (nodes : Finset κ) (height : Nat)
    (rank : L → Nat) : Prop where
  mem_nodes : ∀ {k a}, Holds k a → k ∈ nodes
  rank_le : ∀ {k a}, Holds k a → rank a ≤ height
  merge_rank : ∀ {k e a m}, d.merge k (some e) a = .ok (m, true) → Holds k e → Holds k a →
    rank e < rank m
  merge_total : ∀ k old a e, d.merge k old a ≠ .error e
  enqueue_length : ∀ queue k, (d.enqueue queue k).length ≤ queue.length + 1

/-- How often the state of a node can still be new. -/
def room (height : Nat) (rank : L → Nat) : Option L → Nat
  | none => height + 1
  | some a => height - rank a

/-- How many turns can still be due. -/
def potential (nodes : Finset κ) (height : Nat) (rank : L → Nat) (w : OrdMap κ L × List κ) : Nat :=
  w.2.length + ∑ k ∈ nodes, room height rank (w.1.get? k)

section Budget

variable {d : Dataflow κ L σ ε} {Holds : κ → L → Prop} {Below : L → L → Prop}
  {Grows : σ → σ → Prop} {nodes : Finset κ} {height : Nat} {rank : L → Nat}

theorem potential_insert (height : Nat) (rank : L → Nat) (w : OrdMap κ L × List κ) {k : κ}
    (m : L) (queue : List κ) (hk : k ∈ nodes) :
    potential nodes height rank (w.1.insert k m, queue) + room height rank (w.1.get? k) +
        w.2.length =
      potential nodes height rank w + room height rank (some m) + queue.length := by
  have hrest : ∑ j ∈ nodes.erase k, room height rank ((w.1.insert k m).get? j) =
      ∑ j ∈ nodes.erase k, room height rank (w.1.get? j) := by
    refine Finset.sum_congr rfl fun j hj => ?_
    rw [get?_insert_ne _ _ (Finset.ne_of_mem_erase hj).symm]
  simp only [potential, ← Finset.add_sum_erase nodes _ hk, hrest, get?_insert_self]
  omega

/-- Merging a state queues a node only for room that the node then has less. -/
theorem Bounded.offer_potential (hb : d.Bounded Holds nodes height rank)
    (hd : d.Lawful Holds Below Grows) {w w' : OrdMap κ L × List κ} {out : κ × L}
    (hw : AllHold Holds w.1) (hout : Holds out.1 out.2) (h : d.offer w out = .ok w') :
    potential nodes height rank w' ≤ potential nodes height rank w := by
  obtain ⟨⟨m, changed⟩, hm, hw'⟩ := bind_eq_ok.mp h
  cases hw'
  have hmholds := hd.merge_holds hm (fun e he => hw _ _ he) hout
  have hmrank := hb.rank_le hmholds
  have hsum := potential_insert height rank w m
    (if changed then d.enqueue w.2 out.1 else w.2) (hb.mem_nodes hout)
  have hqueue : (if changed then d.enqueue w.2 out.1 else w.2).length ≤
      w.2.length + changed.toNat := by
    cases changed with
    | true => exact hb.enqueue_length w.2 out.1
    | false => exact Nat.le_refl _
  have hroom : room height rank (some m) + changed.toNat ≤ room height rank (w.1.get? out.1) := by
    cases changed with
    | false => rw [hd.merge_same hm]; exact Nat.le_refl _
    | true =>
      cases hold : w.1.get? out.1 with
      | none => simp only [room, Bool.toNat_true]; omega
      | some e =>
        rw [hold] at hm
        have hlt := hb.merge_rank hm (hw _ _ hold) hout
        simp only [room, Bool.toNat_true]
        omega
  omega

theorem Bounded.offers_potential (hb : d.Bounded Holds nodes height rank)
    (hd : d.Lawful Holds Below Grows) {w w' : OrdMap κ L × List κ} {outs : List (κ × L)}
    (hw : AllHold Holds w.1) (houts : ∀ out ∈ outs, Holds out.1 out.2)
    (h : outs.foldlM d.offer w = .ok w') :
    potential nodes height rank w' ≤ potential nodes height rank w := by
  refine (foldlM_inv (P := fun done w₁ => Offered Holds Below done w w₁ ∧
    potential nodes height rank w₁ ≤ potential nodes height rank w) h ?_ ?_).2
  · exact ⟨hd.offers hw (by simp) rfl, Nat.le_refl _⟩
  · rintro pre out post w₁ w₂ hl ⟨hoffered, hle⟩ hstep
    have hout := houts out (by simp [hl])
    exact ⟨hd.offered hoffered hout hstep,
      (hb.offer_potential hd hoffered.holds hout hstep).trans hle⟩

theorem Bounded.offers_ok (hb : d.Bounded Holds nodes height rank)
    (outs : List (κ × L)) (w : OrdMap κ L × List κ) : ∃ w', outs.foldlM d.offer w = .ok w' := by
  cases h : outs.foldlM d.offer w with
  | ok w' => exact ⟨w', rfl⟩
  | error e =>
    obtain ⟨-, out, -, w₁, -, -, herr⟩ :=
      foldlM_error (P := fun _ _ => True) h trivial (fun _ _ _ _ _ _ _ _ => trivial)
    unfold offer at herr
    cases hm : d.merge out.1 (w₁.1.get? out.1) out.2 with
    | ok r =>
      rw [hm] at herr
      cases herr
    | error e' => exact absurd hm (hb.merge_total _ _ _ _)

/-- With budget for every turn that can be due, a walk fails only where a
transfer does. -/
theorem walk_fails (hb : d.Bounded Holds nodes height rank) (hd : d.Lawful Holds Below Grows) :
    ∀ {budget : Nat} {s : σ} {entries : OrdMap κ L} {queue : List κ} {e : Stop ε},
      d.Sound Holds Below Grows s entries queue →
      potential nodes height rank (entries, queue) ≤ budget →
      d.walk budget s entries queue = .error e →
      ∃ s k a, Holds k a ∧ d.transfer s k a = .error e
  | _, _, _, [], _, _, _, h => by
    simp only [walk] at h
    cases h
  | 0, _, _, _ :: _, _, _, hbudget, _ => by
    simp [potential] at hbudget
  | budget + 1, s, entries, k :: queue, e, hsound, hbudget, h => by
    obtain ⟨a, ha⟩ := hsound.queued k List.mem_cons_self
    rw [walk_turn ha] at h
    cases ht : d.transfer s k a with
    | error e' =>
      rw [ht] at h
      cases h
      exact ⟨s, k, a, hsound.holds k a ha, ht⟩
    | ok r =>
      obtain ⟨s', outs⟩ := r
      obtain ⟨w, hw⟩ := hb.offers_ok outs (entries, queue)
      have hstep : d.walk budget s' w.1 w.2 = .error e := by
        rw [ht] at h
        simpa only [bind, Except.bind, hw] using h
      obtain ⟨hsound', -⟩ := hsound.turn hd ha ht hw
      have hle := hb.offers_potential hd hsound.holds
        (hd.transfer_holds (hsound.holds k a ha) ht) hw
      refine walk_fails hb hd hsound' ?_ hstep
      simp only [potential, List.length_cons] at hle hbudget ⊢
      omega

end Budget

end Dataflow

end QuickJit
