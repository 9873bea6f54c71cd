import Mathlib

/-
  Computations with a work budget.

  A `Budget α` takes the work left and returns a result with what is left after
  it, or nothing: the work did not suffice (`spend`), or the computation gave up
  (`refuse`). What a computation costs does not depend on the budget, so it
  either pays a fixed cost for a fixed result (`Pays`) or gives nothing whatever
  the budget (`Refuses`).

  `Total m Q` says that `m` pays for a result with `Q`. Its rules are those of
  total correctness: for a sequence, for a fold with an invariant of the
  elements done, and for a loop with an invariant and a measure. A loop runs as
  long as there is work, which bounds its rounds because each costs something.
-/

namespace QuickJit

universe u

abbrev Budget := StateT Nat Option

namespace Budget

variable {α β σ : Type}
variable {m : Budget α} {s : Finset β × List β} {P : Prop} {a : α} {f : α → Budget β} {Q : α → Prop}
  {key : β} {R : β → Prop} {body : σ → Option (Budget σ)}

/-- Spend work, if it is there. -/
def spend (cost : Nat) : Budget Unit := fun work =>
  if cost ≤ work then some ((), work - cost) else none

/-- Give up. -/
def refuse : Budget α := fun _ => none

/-- At most `fuel` rounds of a loop; `body` is `none` at its end. -/
def rounds (body : σ → Option (Budget σ)) : Nat → σ → Budget σ
  | 0, s => match body s with
    | none => pure s
    | some _ => refuse
  | fuel + 1, s => match body s with
    | none => pure s
    | some round => round >>= rounds body fuel

/-- A loop, with as many rounds as the work allows. -/
def repeatWhile (body : σ → Option (Budget σ)) (s : σ) : Budget σ := fun work =>
  rounds body (work + 1) s work

/-! ## Costs -/

/-- The computation costs `cost` and gives `a`. -/
def Pays (m : Budget α) (cost : Nat) (a : α) : Prop :=
  ∀ work, m work = if cost ≤ work then some (a, work - cost) else none

/-- No budget suffices. -/
def Refuses (m : Budget α) : Prop := ∀ work, m work = none

/-- The computation gives a result with `Q` if the work suffices. -/
def Total (m : Budget α) (Q : α → Prop) : Prop := ∃ cost a, Pays m cost a ∧ Q a

theorem pays_pure (a : α) : Pays (pure a) 0 a := fun work => by
  rw [if_pos (Nat.zero_le work)]
  rfl

theorem pays_spend (cost : Nat) : Pays (spend cost) cost () := fun _ => rfl

theorem Pays.bind {c d : Nat} {b : β} (hm : Pays m c a) (hf : Pays (f a) d b) :
    Pays (m >>= f) (c + d) b := by
  intro work
  have hbind : (m >>= f) work = (m work).bind fun r => f r.1 r.2 := rfl
  rw [hbind, hm work]
  by_cases hc : c ≤ work
  · rw [if_pos hc, Option.bind_some, hf]
    by_cases hd : c + d ≤ work
    · rw [if_pos hd, if_pos (by omega), Nat.sub_sub]
    · rw [if_neg hd, if_neg (by omega)]
  · rw [if_neg hc, if_neg (by omega)]
    rfl

/-- What gives nothing without work costs something. -/
theorem Pays.pos {cost : Nat} (h : Pays m cost a) (hnone : m 0 = none) :
    1 ≤ cost := by
  rw [h 0] at hnone
  by_contra hlt
  rw [if_pos (by omega)] at hnone
  cases hnone

theorem Total.pure (h : Q a) : Total (pure a) Q := ⟨0, a, pays_pure a, h⟩

theorem Total.bind (hm : Total m Q) (hf : ∀ a, Q a → Total (f a) R) : Total (m >>= f) R := by
  obtain ⟨c, a, hc, ha⟩ := hm
  obtain ⟨d, b, hd, hb⟩ := hf a ha
  exact ⟨c + d, b, hc.bind hd, hb⟩

theorem Total.mono {R : α → Prop} (h : Total m Q) (hqr : ∀ a, Q a → R a) :
    Total m R := by
  obtain ⟨c, a, hc, ha⟩ := h
  exact ⟨c, a, hc, hqr a ha⟩

/-- Work spent first. -/
theorem Total.spend {m : Budget β} (cost : Nat) (h : Total m R) :
    Total (spend cost >>= fun _ => m) R :=
  .bind (Q := fun _ => True) ⟨cost, (), pays_spend cost, trivial⟩ fun _ _ => h

theorem refuses_refuse : Refuses (refuse : Budget α) := fun _ => rfl

/-- The computation gives a result with `Q` under `P`, and otherwise nothing. -/
def Decides (m : Budget α) (P : Prop) (Q : α → Prop) : Prop :=
  (P → Total m Q) ∧ (¬ P → Refuses m)

theorem Decides.bind (hm : Total m Q) (hf : ∀ a, Q a → Decides (f a) P R) :
    Decides (m >>= f) P R := by
  refine ⟨fun h => hm.bind fun a ha => (hf a ha).1 h, fun h work => ?_⟩
  obtain ⟨c, a, hc, ha⟩ := hm
  have hbind : (m >>= f) work = (m work).bind fun r => f r.1 r.2 := rfl
  rw [hbind, hc work]
  split
  · exact (hf a ha).2 h _
  · rfl

theorem Decides.spend {m : Budget β} (cost : Nat) (h : Decides m P R) :
    Decides (spend cost >>= fun _ => m) P R :=
  .bind (Q := fun _ => True) ⟨cost, (), pays_spend cost, trivial⟩ fun _ _ => h

/-- A result was paid for. -/
theorem Total.of_eq_some (h : Total m Q) {work left : Nat} (heq : m work = some (a, left)) :
    Q a := by
  obtain ⟨c, a', hc, ha⟩ := h
  rw [hc work] at heq
  split at heq
  · obtain ⟨rfl, -⟩ := Prod.mk.inj (Option.some.inj heq)
    exact ha
  · cases heq

/-- Enough work gives the result. -/
theorem Total.enough (h : Total m Q) :
    ∃ cost, ∀ work, cost ≤ work → ∃ a left, m work = some (a, left) ∧ Q a := by
  obtain ⟨c, a, hc, ha⟩ := h
  exact ⟨c, fun work hle => ⟨a, work - c, by rw [hc work, if_pos hle], ha⟩⟩

/-! ## Partial correctness -/

/-- If the computation gives a result, it has `Q`. -/
def Gives (m : Budget α) (Q : α → Prop) : Prop := ∀ work a left, m work = some (a, left) → Q a

theorem Gives.pure (h : Q a) : Gives (pure a) Q := by
  intro work b left heq
  obtain ⟨rfl, -⟩ := Prod.mk.inj (Option.some.inj heq)
  exact h

theorem gives_refuse : Gives refuse Q := fun _ _ _ heq => by cases heq

theorem bind_eq_some {work left : Nat} {b : β} (heq : (m >>= f) work = some (b, left)) :
    ∃ a rest, m work = some (a, rest) ∧ f a rest = some (b, left) := by
  have hbind : (m >>= f) work = (m work).bind fun r => f r.1 r.2 := rfl
  rw [hbind] at heq
  obtain ⟨⟨a, rest⟩, hm, hf⟩ := Option.bind_eq_some_iff.mp heq
  exact ⟨a, rest, hm, hf⟩

theorem Gives.bind (hm : Gives m Q) (hf : ∀ a, Q a → Gives (f a) R) : Gives (m >>= f) R := by
  intro work b left heq
  obtain ⟨a, rest, hma, hfa⟩ := bind_eq_some heq
  exact hf a (hm work a rest hma) rest b left hfa

theorem Gives.spend {m : Budget β} (cost : Nat) (h : Gives m R) :
    Gives (spend cost >>= fun _ => m) R :=
  .bind (Q := fun _ => True) (fun _ _ _ _ => trivial) fun _ _ => h

theorem Gives.mono {R : α → Prop} (h : Gives m Q) (hqr : ∀ a, Q a → R a) :
    Gives m R := fun work a left heq => hqr a (h work a left heq)

/-- A fold with an invariant of the elements done, for every notion of
correctness that composes. -/
theorem foldlM_inv {T : Budget σ → (σ → Prop) → Prop} (hpure : ∀ {s Q}, Q s → T (pure s) Q)
    (hbind : ∀ {m f Q R}, T m Q → (∀ s, Q s → T (f s) R) → T (m >>= f) R)
    {f : σ → β → Budget σ} {I : List β → σ → Prop} (l : List β)
    (hf : ∀ d x r s, l = d ++ x :: r → I d s → T (f s x) (I (d ++ [x]))) {s : σ} (hs : I [] s) :
    T (l.foldlM f s) (I l) := by
  have hall : ∀ (r d : List β) (s : σ), l = d ++ r → I d s → T (r.foldlM f s) (I l) := by
    intro r
    induction r with
    | nil =>
      intro d s hl hs
      rw [List.append_nil] at hl
      exact hpure (hl ▸ hs)
    | cons x r ih =>
      intro d s hl hs
      rw [List.foldlM_cons]
      exact hbind (hf d x r s hl hs) fun s' hs' => ih (d ++ [x]) s' (by simp [hl]) hs'
  exact hall l [] s rfl hs

theorem Gives.foldlM {f : σ → β → Budget σ} {I : List β → σ → Prop} (l : List β)
    (hf : ∀ d x r s, l = d ++ x :: r → I d s → Gives (f s x) (I (d ++ [x]))) {s : σ} (hs : I [] s) :
    Gives (l.foldlM f s) (I l) := foldlM_inv .pure .bind l hf hs

/-- A result for each element. -/
theorem Gives.mapM {R : α → β → Prop} (h : ∀ x, Gives (f x) (R x)) :
    ∀ l : List α, Gives (l.mapM f) (List.Forall₂ R l)
  | [] => .pure .nil
  | x :: l => by
    rw [List.mapM_cons]
    refine .bind (h x) fun y hy => .bind (Gives.mapM h l) fun ys hys => ?_
    exact .pure (.cons hy hys)

theorem Decides.gives (h : Decides m P Q) :
    Gives m fun a => P ∧ Q a := by
  intro work a left heq
  by_cases hp : P
  · exact ⟨hp, (h.1 hp).of_eq_some heq⟩
  · rw [h.2 hp work] at heq
    cases heq

/-! ## Folds and loops -/

theorem Total.foldlM {f : σ → β → Budget σ} {I : List β → σ → Prop} (l : List β)
    (hf : ∀ d x r s, l = d ++ x :: r → I d s → Total (f s x) (I (d ++ [x]))) {s : σ} (hs : I [] s) :
    Total (l.foldlM f s) (I l) := foldlM_inv .pure .bind l hf hs

/-- A result for each element. -/
theorem Total.mapM {R : α → β → Prop} :
    ∀ {l : List α}, (∀ x ∈ l, Total (f x) (R x)) → Total (l.mapM f) (List.Forall₂ R l)
  | [], _ => .pure .nil
  | x :: l, h => by
    rw [List.mapM_cons]
    refine .bind (h x List.mem_cons_self) fun y hy => ?_
    refine .bind (Total.mapM fun z hz => h z (List.mem_cons_of_mem _ hz)) fun ys hys => ?_
    exact .pure (.cons hy hys)

theorem rounds_end {s : σ} (h : body s = none) :
    ∀ fuel, rounds body fuel s = pure s
  | 0 => by simp only [rounds, h]
  | fuel + 1 => by simp only [rounds, h]

/-- The rounds of a loop that ends, as long as each but the last costs
something. -/
theorem pays_rounds {I : σ → Prop} (m : σ → Nat)
    (hbody : ∀ s round, I s → body s = some round → ∃ c s', Pays round c s' ∧ I s' ∧ m s' < m s ∧
      (1 ≤ c ∨ body s' = none)) (s : σ) (hs : I s) :
    ∃ cost s', I s' ∧ body s' = none ∧
      ∀ fuel work, work < fuel → rounds body fuel s work =
        if cost ≤ work then some (s', work - cost) else none := by
  induction hn : m s using Nat.strong_induction_on generalizing s with
  | _ n ih =>
    subst hn
    cases hround : body s with
    | none =>
      refine ⟨0, s, hs, hround, fun fuel work _ => ?_⟩
      rw [rounds_end hround, pays_pure]
    | some round =>
      obtain ⟨c, s', hpays, hs', hless, hcost⟩ := hbody s round hs hround
      obtain ⟨d, s'', hs'', hend, hrest⟩ := ih _ hless s' hs' rfl
      refine ⟨c + d, s'', hs'', hend, fun fuel work hlt => ?_⟩
      cases fuel with
      | zero => omega
      | succ fuel =>
        have hbind : rounds body (fuel + 1) s work =
            (round work).bind fun r => rounds body fuel r.1 r.2 := by
          simp only [rounds, hround]
          rfl
        rw [hbind, hpays work]
        by_cases hc : c ≤ work
        · -- at the end of the loop the fuel does not matter
          have hleft : rounds body fuel s' (work - c) =
              if d ≤ work - c then some (s'', work - c - d) else none := by
            rcases hcost with hcost | hlast
            · exact hrest fuel (work - c) (by omega)
            · rw [← hrest (work - c + 1) (work - c) (Nat.lt_succ_self _), rounds_end hlast,
                rounds_end hlast]
          rw [if_pos hc, Option.bind_some, hleft, Nat.sub_sub]
          exact ite_congr (propext (by omega)) (fun _ => rfl) fun _ => rfl
        · rw [if_neg hc, if_neg (by omega)]
          rfl

/-- A loop with an invariant and a measure. -/
theorem Total.repeatWhile {I : σ → Prop} (m : σ → Nat)
    (hbody : ∀ s round, I s → body s = some round → ∃ c s', Pays round c s' ∧ I s' ∧ m s' < m s ∧
      (1 ≤ c ∨ body s' = none)) {s : σ} (hs : I s) :
    Total (repeatWhile body s) fun s' => I s' ∧ body s' = none := by
  obtain ⟨cost, s', hs', hend, hpays⟩ := pays_rounds m hbody s hs
  exact ⟨cost, s', fun work => hpays (work + 1) work (Nat.lt_succ_self work), hs', hend⟩

/-- A round that spends first costs something. -/
theorem Total.round {m : Budget σ} {Q : σ → Prop} {cost : Nat} (hcost : 1 ≤ cost)
    (h : Total m Q) : ∃ c s', Pays (Budget.spend cost >>= fun _ => m) c s' ∧ Q s' ∧ 1 ≤ c := by
  obtain ⟨c, s', hpays, hs'⟩ := h
  exact ⟨cost + c, s', (pays_spend cost).bind hpays, hs', by omega⟩

/-! ## Floods

Keys are marked when they join the stack, so each is taken from it once. -/

section Flood

variable [DecidableEq β]

/-- Mark a key and put it on the stack, unless it was marked before. -/
def mark (s : Finset β × List β) (key : β) : Finset β × List β :=
  if key ∈ s.1 then s else (insert key s.1, key :: s.2)

/-- Mark the wanted neighbours of the keys on the stack until it is empty. -/
def flood (next : β → List β) (wanted : β → Budget Bool) :
    Finset β × List β → Budget (Finset β × List β) :=
  repeatWhile fun s => match s.2 with
    | [] => none
    | key :: rest => some do
      spend 1
      (next key).foldlM (fun s key => do
        spend 1
        if ← wanted key then pure (mark s key) else pure s) (s.1, rest)

/-- What a flood keeps: the marked keys are good, those of `kept` never join the
stack, and the neighbours of the keys taken from it are marked, except for a
key that is busy. -/
structure Flooding (next : β → List β) (W G : β → Prop) (kept : Finset β) (busy : β → Prop)
    (s : Finset β × List β) : Prop where
  good : ∀ b ∈ s.1, G b
  kept_marked : kept ⊆ s.1
  stacked : ∀ b ∈ s.2, b ∈ s.1 ∧ b ∉ kept
  closed : ∀ b ∈ s.1, b ∉ kept → b ∉ s.2 → ¬ busy b → ∀ key ∈ next b, W key → key ∈ s.1

variable {next : β → List β} {wanted : β → Budget Bool} {W G : β → Prop} {kept : Finset β}

theorem Flooding.mark {busy : β → Prop} (h : Flooding next W G kept busy s) (hkey : G key) :
    Flooding next W G kept busy (mark s key) := by
  unfold Budget.mark
  split
  case isTrue => exact h
  case isFalse hnew =>
    refine ⟨fun b hb => ?_, fun b hb => ?_, fun b hb => ?_, fun b hb hk hs ht x hx hw => ?_⟩
    · rcases Finset.mem_insert.mp hb with rfl | hb
      · exact hkey
      · exact h.good b hb
    · exact Finset.mem_insert_of_mem (h.kept_marked hb)
    · rcases List.mem_cons.mp hb with rfl | hb
      · exact ⟨Finset.mem_insert_self _ _, fun hk => hnew (h.kept_marked hk)⟩
      · exact ⟨Finset.mem_insert_of_mem (h.stacked b hb).1, (h.stacked b hb).2⟩
    · obtain ⟨hbk, hbs⟩ := not_or.mp (mt List.mem_cons.mpr hs)
      have hb := Finset.mem_of_mem_insert_of_ne hb hbk
      exact Finset.mem_insert_of_mem (h.closed b hb hk hbs ht x hx hw)

/-- Marking moves a key from the unmarked ones to the stack. -/
theorem mark_measure {bound : Finset β} (hs : s.1 ⊆ bound) (hkey : key ∈ bound) :
    bound.card - (mark s key).1.card + (mark s key).2.length =
      bound.card - s.1.card + s.2.length := by
  unfold mark
  split
  case isTrue => rfl
  case isFalse hnew =>
    have hlt : s.1.card < bound.card :=
      Finset.card_lt_card (Finset.ssubset_iff.mpr ⟨key, hnew, Finset.insert_subset hkey hs⟩)
    simp only [Finset.card_insert_of_notMem hnew, List.length_cons]
    omega

theorem mem_mark : key ∈ (mark s key).1 := by
  unfold mark
  split
  case isTrue h => exact h
  case isFalse => exact Finset.mem_insert_self _ _

theorem subset_mark : s.1 ⊆ (mark s key).1 := by
  unfold mark
  split
  case isTrue => exact fun _ => id
  case isFalse => exact Finset.subset_insert _ _

theorem subset_foldl_mark : ∀ (l : List β) {s : Finset β × List β}, s.1 ⊆ (l.foldl mark s).1
  | [], _ => fun _ => id
  | _ :: l, _ => subset_mark.trans (subset_foldl_mark l)

/-- Marking the keys of a list. -/
theorem Flooding.foldl_mark {busy : β → Prop} :
    ∀ {l : List β} {s : Finset β × List β}, Flooding next W G kept busy s → (∀ x ∈ l, G x) →
      Flooding next W G kept busy (l.foldl Budget.mark s) ∧ ∀ x ∈ l, x ∈ (l.foldl Budget.mark s).1
  | [], _, h, _ => ⟨h, fun _ hx => by cases hx⟩
  | x :: l, s, h, hl => by
    obtain ⟨hflood, hmem⟩ := (h.mark (hl x List.mem_cons_self)).foldl_mark
      fun y hy => hl y (List.mem_cons_of_mem _ hy)
    refine ⟨hflood, fun y hy => ?_⟩
    rcases List.mem_cons.mp hy with rfl | hy
    · exact subset_foldl_mark l mem_mark
    · exact hmem y hy

/-- The neighbours of a key taken from the stack. -/
theorem total_neighbours {bound : Finset β} (hbound : ∀ b, G b → b ∈ bound)
    (hwanted : ∀ x ∈ next key, Total (wanted x) fun w => (w = true ↔ W x))
    (hgood : ∀ x ∈ next key, W x → G x) (hs : Flooding next W G kept (· = key) s) :
    Total ((next key).foldlM (fun s key => do
        spend 1
        if ← wanted key then pure (mark s key) else pure s) s) fun s' =>
      Flooding next W G kept (fun _ => False) s' ∧ s.1 ⊆ s'.1 ∧
        bound.card - s'.1.card + s'.2.length = bound.card - s.1.card + s.2.length := by
  -- the neighbours done are marked; at the end the key is not busy any more
  refine (Total.foldlM (I := fun d s' => Flooding next W G kept (· = key) s' ∧ s.1 ⊆ s'.1 ∧
    bound.card - s'.1.card + s'.2.length = bound.card - s.1.card + s.2.length ∧
    ∀ x ∈ d, W x → x ∈ s'.1) (next key) ?_ ⟨hs, fun _ => id, rfl, fun _ hx => by cases hx⟩).mono ?_
  · rintro d x r s' hsplit ⟨hflood, hsub, hmeasure, hdone⟩
    have hx : x ∈ next key := hsplit ▸ List.mem_append_right d List.mem_cons_self
    refine .spend 1 (.bind (hwanted x hx) fun w hw => ?_)
    by_cases hwx : W x
    · obtain rfl := hw.mpr hwx
      have hbounded : s'.1 ⊆ bound := fun b hb => hbound b (hflood.good b hb)
      refine .pure ⟨hflood.mark (hgood x hx hwx), hsub.trans subset_mark, ?_, fun y hy hwy => ?_⟩
      · rw [mark_measure hbounded (hbound x (hgood x hx hwx)), hmeasure]
      · rcases List.mem_append.mp hy with hy | hy
        · exact subset_mark (hdone y hy hwy)
        · exact List.mem_singleton.mp hy ▸ mem_mark
    · obtain rfl : w = false := by simpa [hwx] using hw
      refine .pure ⟨hflood, hsub, hmeasure, fun y hy hwy => ?_⟩
      rcases List.mem_append.mp hy with hy | hy
      · exact hdone y hy hwy
      · exact absurd (List.mem_singleton.mp hy ▸ hwy) hwx
  · rintro s' ⟨hflood, hsub, hmeasure, hdone⟩
    refine ⟨⟨hflood.good, hflood.kept_marked, hflood.stacked, fun b hb hk hst _ x hx hw => ?_⟩,
      hsub, hmeasure⟩
    by_cases hbusy : b = key
    · subst hbusy
      exact hdone x hx hw
    · exact hflood.closed b hb hk hst hbusy x hx hw

/-- A flood marks what can be reached, and nothing else. -/
theorem total_flood (bound : Finset β) (hbound : ∀ b, G b → b ∈ bound)
    (hwanted : ∀ b key, G b → b ∉ kept → key ∈ next b →
      Total (wanted key) fun w => (w = true ↔ W key))
    (hstep : ∀ b key, G b → b ∉ kept → key ∈ next b → W key → G key)
    (hs : Flooding next W G kept (fun _ => False) s) :
    Total (flood next wanted s) fun s' => s.1 ⊆ s'.1 ∧ (∀ b ∈ s'.1, G b) ∧
      ∀ b ∈ s'.1, b ∉ kept → ∀ key ∈ next b, W key → key ∈ s'.1 := by
  refine (Total.repeatWhile
    (I := fun s' => Flooding next W G kept (fun _ => False) s' ∧ s.1 ⊆ s'.1)
    (fun s' => bound.card - s'.1.card + s'.2.length) ?_ ⟨hs, fun _ => id⟩).mono ?_
  · rintro ⟨marked, stack⟩ round ⟨hflood, hsub⟩ hround
    cases stack with
    | nil => cases hround
    | cons key rest =>
      obtain rfl := Option.some.inj hround
      obtain ⟨hmarked, hkept⟩ := hflood.stacked key List.mem_cons_self
      have hgood : G key := hflood.good key hmarked
      have htaken : Flooding next W G kept (· = key) (marked, rest) := by
        refine ⟨hflood.good, hflood.kept_marked,
          fun b hb => hflood.stacked b (List.mem_cons_of_mem _ hb), fun b hb hk hst hbusy => ?_⟩
        exact hflood.closed b hb hk (fun h => (List.mem_cons.mp h).elim hbusy hst) id
      obtain ⟨c, s', hpays, ⟨hflood', hsub', hmeasure⟩, hc⟩ := Total.round (Nat.le_refl 1)
        (total_neighbours hbound (hwanted key · hgood hkept) (hstep key · hgood hkept) htaken)
      refine ⟨c, s', hpays, ⟨hflood', hsub.trans hsub'⟩, ?_, .inl hc⟩
      rw [hmeasure]
      exact Nat.lt_succ_self _
  · rintro ⟨marked, stack⟩ ⟨⟨hflood, hsub⟩, hend⟩
    cases stack with
    | nil =>
      exact ⟨hsub, hflood.good, fun b hb hk => hflood.closed b hb hk List.not_mem_nil id⟩
    | cons => cases hend

end Flood

end Budget

end QuickJit
