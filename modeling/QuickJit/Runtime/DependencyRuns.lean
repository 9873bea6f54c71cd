import QuickJit.Runtime.ShapeFeedback

/-
  Runs of the dependency graph.

  Besides `install` and `invalidate` the graph publishes tokens: a newer
  generation of a shape or a prototype invalidates the older one with all its
  dependents and becomes a node without dependencies. `Grounded` is what every
  operation keeps: the reverse edges mirror the dependencies, and a valid node
  depends on valid nodes only. Where tokens become nodes only by being
  published, `Dated` holds as well: a token of an older generation is invalid,
  and stays so.
-/

namespace QuickJit

inductive TokenKind where
  | shape
  | prototype
  deriving DecidableEq, Repr

def TokenKind.key : TokenKind → DependencyToken → DependencyKey
  | .shape, token => .shape token
  | .prototype, token => .prototype token

theorem TokenKind.key_injective {kind kind' : TokenKind} {token token' : DependencyToken}
    (h : kind.key token = kind'.key token') : kind = kind' ∧ token = token' := by
  cases kind <;> cases kind' <;> cases h <;> exact ⟨rfl, rfl⟩

namespace DependencyGraph

/-- The newest generation published for each identity. -/
def generations (g : DependencyGraph) : TokenKind → OrdMap Nat Nat
  | .shape => g.shapeGenerations
  | .prototype => g.prototypeGenerations

/-- Record the generation of a token. -/
def setGeneration (g : DependencyGraph) (kind : TokenKind) (token : DependencyToken) :
    DependencyGraph :=
  match kind with
  | .shape =>
    { g with shapeGenerations := g.shapeGenerations.insert token.identity token.generation }
  | .prototype =>
    { g with prototypeGenerations := g.prototypeGenerations.insert token.identity token.generation }

/-- Install the node of a token and record its generation. -/
def installToken (g : DependencyGraph) (kind : TokenKind) (token : DependencyToken)
    (invalidated : List DependencyKey) :
    DependencyGraph × Except DependencyError (List DependencyKey) :=
  match g.install (kind.key token) token.generation [] with
  | .error e => (g, .error e)
  | .ok g => (g.setGeneration kind token, .ok invalidated)

/-- `publish_shape` and `publish_prototype`. -/
def publish (g : DependencyGraph) (kind : TokenKind) (token : DependencyToken) :
    DependencyGraph × Except DependencyError (List DependencyKey) :=
  match (g.generations kind).get? token.identity with
  | some current =>
    if token.generation < current then (g, .error .versionRegression)
    else if token.generation = current then
      if g.isValid (kind.key token) then (g, .ok []) else (g, .error .staleDependency)
    else
      let (g, invalidated) := g.invalidate (kind.key ⟨token.identity, current⟩)
      g.installToken kind token invalidated
  | none => g.installToken kind token []

def publishShape (g : DependencyGraph) (token : DependencyToken) :
    DependencyGraph × Except DependencyError (List DependencyKey) :=
  g.publish .shape token

def publishPrototype (g : DependencyGraph) (token : DependencyToken) :
    DependencyGraph × Except DependencyError (List DependencyKey) :=
  g.publish .prototype token

def shapeDependencies (observations : List ShapeObservation) : List DependencyKey :=
  observations.flatMap fun o => [.shape o.shape, .prototype o.prototype]

def installShapeSpecialization (g : DependencyGraph) (key : DependencyKey) (version : Nat)
    (observations : List ShapeObservation) (polymorphicLimit : Nat) :
    Except DependencyError DependencyGraph :=
  if polymorphicLimit < observations.length then .error .dependencyLimit
  else g.install key version (shapeDependencies observations)

end DependencyGraph

/-- The operations on a dependency graph. -/
inductive DependencyOp where
  | install (key : DependencyKey) (version : Nat) (dependencies : List DependencyKey)
  | publishShape (token : DependencyToken)
  | publishPrototype (token : DependencyToken)
  | installShapeSpecialization (key : DependencyKey) (version : Nat)
      (observations : List ShapeObservation) (polymorphicLimit : Nat)
  | invalidate (root : DependencyKey)

namespace DependencyGraph

/-- A graph after an installation; a failed one leaves it alone. -/
def orElse (g : DependencyGraph) : Except DependencyError DependencyGraph → DependencyGraph
  | .ok g' => g'
  | .error _ => g

def step (g : DependencyGraph) : DependencyOp → DependencyGraph
  | .install key version dependencies => g.orElse (g.install key version dependencies)
  | .publishShape token => (g.publishShape token).1
  | .publishPrototype token => (g.publishPrototype token).1
  | .installShapeSpecialization key version observations limit =>
    g.orElse (g.installShapeSpecialization key version observations limit)
  | .invalidate root => (g.invalidate root).1

end DependencyGraph

/-- The operation makes no node of a token except by publishing it. -/
def DependencyOp.Publishes : DependencyOp → Prop
  | .install key _ _ | .installShapeSpecialization key _ _ _ => ∃ function, key = .function function
  | _ => True

namespace DependencyGraph

variable {g g' : DependencyGraph} {key x : DependencyKey} {version : Nat} {kind : TokenKind}
  {token : DependencyToken} {dependencies l : List DependencyKey} {root : DependencyKey}
  {op : DependencyOp} {ops : List DependencyOp} {identity n : Nat}

/-! ## Grounded graphs -/

/-- The reverse edges mirror the dependencies, and valid nodes depend on valid
nodes only. -/
structure Grounded (g : DependencyGraph) : Prop where
  consistent : g.Consistent
  valid : ∀ {a b}, g.isValid a = true → g.DependsOn a b → g.isValid b = true

theorem empty_grounded : empty.Grounded := ⟨empty_consistent, fun h => nomatch h⟩

theorem Grounded.valid_trans (h : g.Grounded) {a b : DependencyKey} (ha : g.isValid a = true)
    (hab : Relation.TransGen g.DependsOn a b) : g.isValid b = true := by
  induction hab with
  | single hab => exact h.valid ha hab
  | tail _ hbc ih => exact h.valid ih hbc

theorem Grounded.invalid_trans (h : g.Grounded) {a b : DependencyKey} (hb : g.isValid b = false)
    (hab : Relation.TransGen g.DependsOn a b) : g.isValid a = false := by
  by_contra ha
  have hvalid := h.valid_trans (by simpa using ha) hab
  cases hb.symm.trans hvalid

theorem Installed.grounded (h : g.Installed key dependencies g') (hg : g.Grounded) :
    g'.Grounded := by
  have hstays : ∀ {b}, g.isValid b = true → g'.isValid b = true := fun {b} hb => by
    by_cases hkey : b = key
    · exact hkey ▸ h.isValid_self
    · exact (h.isValid_ne hkey).trans hb
  refine ⟨h.consistent hg.consistent, fun {a b} ha hab => hstays ?_⟩
  by_cases hkey : a = key
  · subst hkey
    exact h.valid b ((h.recorded_self b).mp hab)
  · rw [DependsOn, h.recorded_ne hkey] at hab
    exact hg.valid ((h.isValid_ne hkey).symm.trans ha) hab

theorem Invalidated.grounded (h : g.Invalidated root l g') (hg : g.Grounded) : g'.Grounded := by
  refine ⟨h.consistent hg.consistent, fun {a b} ha hab => ?_⟩
  rw [DependsOn, h.recorded_eq] at hab
  rw [h.isValid_eq, Bool.and_eq_true, decide_eq_true_eq] at ha ⊢
  exact ⟨hg.valid ha.1 hab, fun hb => ha.2 (h.closed b a (.inl hb) hab)⟩

theorem setGeneration_isValid (g : DependencyGraph) (kind : TokenKind) (token : DependencyToken) :
    (g.setGeneration kind token).isValid = g.isValid := by
  cases kind <;> rfl

theorem setGeneration_contains (g : DependencyGraph) (kind : TokenKind) (token : DependencyToken) :
    (g.setGeneration kind token).nodes = g.nodes := by
  cases kind <;> rfl

theorem Grounded.setGeneration (h : g.Grounded) (kind : TokenKind) (token : DependencyToken) :
    (g.setGeneration kind token).Grounded := by
  cases kind <;> exact ⟨h.consistent, h.valid⟩

/-! ## Publishing -/

theorem install_generations (h : g.install key version dependencies = .ok g') :
    g'.generations = g.generations := by
  unfold install at h
  split at h
  · cases h
  dsimp only at h
  split at h
  · cases h
  · cases h
    funext kind
    cases kind <;> rfl

/-- `g'` is `g` after the older generations of a token have been invalidated. -/
structure Outdated (g : DependencyGraph) (kind : TokenKind) (token : DependencyToken)
    (g' : DependencyGraph) : Prop where
  grounded : g.Grounded → g'.Grounded
  recorded_eq : ∀ k, g'.recorded k = g.recorded k
  isValid_le : ∀ k, g.isValid k = false → g'.isValid k = false
  contains_eq : ∀ k, g'.nodes.contains k = g.nodes.contains k
  generations_eq : g'.generations = g.generations
  newest : ∀ current, (g.generations kind).get? token.identity = some current →
    current < token.generation ∧ g'.isValid (kind.key ⟨token.identity, current⟩) = false

theorem invalidate_generations (g : DependencyGraph) (root : DependencyKey) :
    (g.invalidate root).1.generations = g.generations := by
  unfold invalidate
  split
  · rfl
  · funext kind
    cases kind <;> rfl

/-- What publishing a token comes to: nothing; or the invalidation of the older
generation and, unless that fails, the new node. -/
theorem publish_cases (hg : g.Grounded) (kind : TokenKind) (token : DependencyToken) :
    ((g.publish kind token).1 = g ∧ ∀ l, (g.publish kind token).2 = .ok l →
      (g.generations kind).get? token.identity = some token.generation) ∨
    ∃ g₁, g.Outdated kind token g₁ ∧
      ((∃ e, g.publish kind token = (g₁, .error e)) ∨
        ∃ g₂ l, g₁.Installed (kind.key token) [] g₂ ∧ g₂.generations = g₁.generations ∧
          g.publish kind token = (g₂.setGeneration kind token, .ok l)) := by
  have hinstall : ∀ (g₁ : DependencyGraph) (l : List DependencyKey),
      (∃ e, g₁.installToken kind token l = (g₁, .error e)) ∨
        ∃ g₂ l', g₁.Installed (kind.key token) [] g₂ ∧ g₂.generations = g₁.generations ∧
          g₁.installToken kind token l = (g₂.setGeneration kind token, .ok l') := by
    intro g₁ l
    unfold installToken
    cases hresult : g₁.install (kind.key token) token.generation [] with
    | error e => exact .inl ⟨e, rfl⟩
    | ok g₂ => exact .inr ⟨g₂, l, install_eq_ok hresult, install_generations hresult, rfl⟩
  unfold publish
  cases hcurrent : (g.generations kind).get? token.identity with
  | none =>
    refine .inr ⟨g, ⟨id, fun _ => rfl, fun _ h => h, fun _ => rfl, rfl, fun current h => ?_⟩,
      hinstall g []⟩
    cases hcurrent.symm.trans h
  | some current =>
    dsimp only
    split
    · exact .inl ⟨rfl, nofun⟩
    split
    case isTrue heq =>
      subst heq
      split
      · exact .inl ⟨rfl, fun _ _ => rfl⟩
      · exact .inl ⟨rfl, nofun⟩
    case isFalse hle hne =>
      have hspec := invalidate_spec hg.consistent (kind.key ⟨token.identity, current⟩)
      refine .inr ⟨_, ⟨hspec.grounded, hspec.recorded_eq, fun k hk => ?_, hspec.contains_eq,
        invalidate_generations g _, fun current' h => ?_⟩, hinstall _ _⟩
      · rw [hspec.isValid_eq, hk, Bool.false_and]
      · cases hcurrent.symm.trans h
        exact ⟨by omega, hspec.isValid_root⟩

/-! ## Dated graphs -/

/-- Tokens are nodes up to the newest generation only, and older generations
are invalid. -/
structure Dated (g : DependencyGraph) : Prop where
  bound : ∀ {kind token}, g.nodes.contains (kind.key token) = true →
    ∃ current, (g.generations kind).get? token.identity = some current ∧
      token.generation ≤ current
  stale : ∀ {kind token current}, (g.generations kind).get? token.identity = some current →
    token.generation < current → g.isValid (kind.key token) = false

theorem empty_dated : empty.Dated := by
  refine ⟨fun h => (nomatch h), fun {kind token current} h _ => ?_⟩
  cases kind <;> cases h

theorem isValid_of_absent (h : g.nodes.contains key = false) : g.isValid key = false := by
  have hnone : g.nodes.get? key = none := by simpa [OrdMap.contains] using h
  rw [isValid, hnone]
  rfl

theorem Dated.of_function {function : FunctionKey}
    (h : g.Installed (.function function) dependencies g') (hgen : g'.generations = g.generations)
    (hd : g.Dated) : g'.Dated := by
  have hne : ∀ (kind : TokenKind) (token : DependencyToken),
      kind.key token ≠ .function function := fun kind _ heq => by cases kind <;> cases heq
  refine ⟨fun hcontains => ?_, fun hget hlt => ?_⟩
  · rw [h.contains_ne (hne _ _)] at hcontains
    rw [hgen]
    exact hd.bound hcontains
  · rw [hgen] at hget
    rw [h.isValid_ne (hne _ _)]
    exact hd.stale hget hlt

theorem Dated.of_le (hd : g.Dated) (hcontains : ∀ k, g'.nodes.contains k = g.nodes.contains k)
    (hvalid : ∀ k, g.isValid k = false → g'.isValid k = false)
    (hgen : g'.generations = g.generations) : g'.Dated := by
  refine ⟨fun h => ?_, fun hget hlt => hvalid _ ?_⟩
  · rw [hcontains] at h
    rw [hgen]
    exact hd.bound h
  · rw [hgen] at hget
    exact hd.stale hget hlt

/-- After the invalidation no generation of the identity is valid. -/
theorem Outdated.older (h : g.Outdated kind token g') (hd : g.Dated) {older : DependencyToken}
    (hidentity : older.identity = token.identity) : g'.isValid (kind.key older) = false := by
  cases hcontains : g.nodes.contains (kind.key older) with
  | false =>
    rw [← h.contains_eq] at hcontains
    exact isValid_of_absent hcontains
  | true =>
    obtain ⟨current, hcurrent, hle⟩ := hd.bound hcontains
    rcases Nat.lt_or_eq_of_le hle with hless | heq
    · exact h.isValid_le _ (hd.stale hcurrent hless)
    · rw [hidentity] at hcurrent
      have hroot := (h.newest current hcurrent).2
      rwa [← hidentity, ← heq] at hroot

/-- The token to be published is no node yet. -/
theorem Outdated.fresh (h : g.Outdated kind token g') (hd : g.Dated) :
    g'.nodes.contains (kind.key token) = false := by
  rw [h.contains_eq]
  by_contra hcontains
  obtain ⟨current, hcurrent, hle⟩ := hd.bound (by simpa using hcontains)
  have hlt := (h.newest current hcurrent).1
  omega

theorem generations_setGeneration (g : DependencyGraph) (kind kind' : TokenKind)
    (token : DependencyToken) (identity : Nat) :
    ((g.setGeneration kind token).generations kind').get? identity =
      if kind' = kind ∧ identity = token.identity then some token.generation
      else (g.generations kind').get? identity := by
  by_cases hid : identity = token.identity
  · subst hid
    cases kind <;> cases kind' <;> simp [setGeneration, generations]
  · have hget : ∀ m : OrdMap Nat Nat,
        (m.insert token.identity token.generation).get? identity = m.get? identity := fun m =>
      OrdMap.get?_insert_ne m _ (Ne.symm hid)
    cases kind <;> cases kind' <;> simp [setGeneration, generations, hid, hget]

/-- Publishing a newer generation keeps the graph dated. -/
theorem Outdated.dated {g₁ g₂ : DependencyGraph} (h : g.Outdated kind token g₁)
    (hi : g₁.Installed (kind.key token) [] g₂) (hgen : g₂.generations = g₁.generations)
    (hd : g.Dated) : (g₂.setGeneration kind token).Dated := by
  have hgenerations : ∀ kind' identity,
      ((g₂.setGeneration kind token).generations kind').get? identity =
        if kind' = kind ∧ identity = token.identity then some token.generation
        else (g.generations kind').get? identity := fun kind' identity => by
    rw [generations_setGeneration, hgen, h.generations_eq]
  refine ⟨fun {kind' token'} hcontains => ?_, fun {kind' token' current} hget hlt => ?_⟩
  · rw [setGeneration_contains] at hcontains
    rw [hgenerations]
    by_cases hkey : kind'.key token' = kind.key token
    · obtain ⟨rfl, rfl⟩ := TokenKind.key_injective hkey
      exact ⟨token'.generation, if_pos ⟨rfl, rfl⟩, Nat.le_refl _⟩
    · rw [hi.contains_ne hkey, h.contains_eq] at hcontains
      obtain ⟨current, hcurrent, hle⟩ := hd.bound hcontains
      by_cases hsame : kind' = kind ∧ token'.identity = token.identity
      · obtain ⟨rfl, hidentity⟩ := hsame
        rw [hidentity] at hcurrent
        have hlt := (h.newest current hcurrent).1
        exact ⟨token.generation, if_pos ⟨rfl, hidentity⟩, by omega⟩
      · exact ⟨current, by rw [if_neg hsame]; exact hcurrent, hle⟩
  · rw [hgenerations] at hget
    rw [setGeneration_isValid]
    by_cases hsame : kind' = kind ∧ token'.identity = token.identity
    · rw [if_pos hsame] at hget
      obtain ⟨rfl, hidentity⟩ := hsame
      cases hget
      rw [hi.isValid_ne fun hkey => ?_]
      · exact h.older hd hidentity
      · rw [(TokenKind.key_injective hkey).2] at hlt
        exact Nat.lt_irrefl _ hlt
    · rw [if_neg hsame] at hget
      rw [hi.isValid_ne fun hkey => hsame ?_]
      · exact h.isValid_le _ (hd.stale hget hlt)
      · obtain ⟨rfl, rfl⟩ := TokenKind.key_injective hkey
        exact ⟨rfl, rfl⟩

/-! ## Steps -/

theorem installShapeSpecialization_cases (g : DependencyGraph) (key : DependencyKey) (version : Nat)
    (observations : List ShapeObservation) (limit : Nat) :
    g.installShapeSpecialization key version observations limit = .error .dependencyLimit ∨
      g.installShapeSpecialization key version observations limit =
        g.install key version (shapeDependencies observations) := by
  unfold installShapeSpecialization
  split
  · exact .inl rfl
  · exact .inr rfl

/-- What one operation does: nothing, an installation, an invalidation or the
publication of a token. -/
theorem step_cases (g : DependencyGraph) (op : DependencyOp) :
    g.step op = g ∨
    (∃ key version dependencies g', g.install key version dependencies = .ok g' ∧ g.step op = g' ∧
      (op = .install key version dependencies ∨ ∃ observations limit,
        g.installShapeSpecialization key version observations limit = .ok g' ∧
          op = .installShapeSpecialization key version observations limit)) ∨
    (∃ root, g.step op = (g.invalidate root).1) ∨
    ∃ kind token, g.step op = (g.publish kind token).1 ∧
      (op = .publishShape token ∧ kind = .shape ∨
        op = .publishPrototype token ∧ kind = .prototype) := by
  cases op with
  | install key version dependencies =>
    cases hresult : g.install key version dependencies with
    | error e => exact .inl (congrArg g.orElse hresult)
    | ok g' =>
      refine .inr (.inl ⟨key, version, dependencies, g', hresult, ?_, .inl rfl⟩)
      exact congrArg g.orElse hresult
  | installShapeSpecialization key version observations limit =>
    cases hresult : g.installShapeSpecialization key version observations limit with
    | error e => exact .inl (congrArg g.orElse hresult)
    | ok g' =>
      refine .inr (.inl ⟨key, version, shapeDependencies observations, g', ?_, ?_,
        .inr ⟨observations, limit, hresult, rfl⟩⟩)
      · rcases installShapeSpecialization_cases g key version observations limit with hlimit | heq
        · cases hlimit.symm.trans hresult
        · exact heq.symm.trans hresult
      · exact congrArg g.orElse hresult
  | invalidate root => exact .inr (.inr (.inl ⟨root, rfl⟩))
  | publishShape token =>
    exact .inr (.inr (.inr ⟨.shape, token, rfl, .inl ⟨rfl, rfl⟩⟩))
  | publishPrototype token =>
    exact .inr (.inr (.inr ⟨.prototype, token, rfl, .inr ⟨rfl, rfl⟩⟩))

theorem publish_grounded (hg : g.Grounded) (kind : TokenKind) (token : DependencyToken) :
    (g.publish kind token).1.Grounded := by
  rcases publish_cases hg kind token with ⟨hsame, -⟩ | ⟨g₁, hout, ⟨e, heq⟩ | ⟨g₂, l, hi, -, heq⟩⟩
  · rwa [hsame]
  · rw [heq]
    exact hout.grounded hg
  · rw [heq]
    exact (hi.grounded (hout.grounded hg)).setGeneration kind token

theorem publish_dated (hg : g.Grounded) (hd : g.Dated) (kind : TokenKind) (token : DependencyToken) :
    (g.publish kind token).1.Dated := by
  rcases publish_cases hg kind token with ⟨hsame, -⟩ | ⟨g₁, hout, ⟨e, heq⟩ | ⟨g₂, l, hi, hgen, heq⟩⟩
  · rwa [hsame]
  · rw [heq]
    exact hd.of_le hout.contains_eq hout.isValid_le hout.generations_eq
  · rw [heq]
    exact hout.dated hi hgen hd

theorem step_grounded (g : DependencyGraph) (op : DependencyOp) (hg : g.Grounded) :
    (g.step op).Grounded := by
  rcases step_cases g op with hsame | ⟨_, _, _, g', hok, hstep, -⟩ | ⟨root, hstep⟩ |
    ⟨kind, token, hstep, -⟩
  · rwa [hsame]
  · rw [hstep]
    exact (install_eq_ok hok).grounded hg
  · rw [hstep]
    exact (invalidate_spec hg.consistent root).grounded hg
  · rw [hstep]
    exact publish_grounded hg kind token

theorem step_dated (hg : g.Grounded) (hd : g.Dated) (hop : op.Publishes) :
    (g.step op).Dated := by
  rcases step_cases g op with hsame | ⟨key, _, _, g', hok, hstep, horigin⟩ | ⟨root, hstep⟩ |
    ⟨kind, token, hstep, -⟩
  · rwa [hsame]
  · have hfunction : ∃ function, key = .function function := by
      rcases horigin with rfl | ⟨_, _, -, rfl⟩
      · exact hop
      · exact hop
    obtain ⟨function, rfl⟩ := hfunction
    rw [hstep]
    exact hd.of_function (install_eq_ok hok) (install_generations hok)
  · have hspec := invalidate_spec hg.consistent root
    rw [hstep]
    refine hd.of_le hspec.contains_eq (fun k hk => ?_) (invalidate_generations g root)
    rw [hspec.isValid_eq, hk, Bool.false_and]
  · rw [hstep]
    exact publish_dated hg hd kind token

/-- Generations only grow. -/
theorem publish_generations (hg : g.Grounded) (kind kind' : TokenKind) (token : DependencyToken)
    (h : (g.generations kind').get? identity = some n) :
    ∃ n', ((g.publish kind token).1.generations kind').get? identity = some n' ∧ n ≤ n' := by
  rcases publish_cases hg kind token with ⟨hsame, -⟩ | ⟨g₁, hout, ⟨e, heq⟩ | ⟨g₂, l, hi, hgen, heq⟩⟩
  · rw [hsame]
    exact ⟨n, h, Nat.le_refl n⟩
  · rw [heq]
    exact ⟨n, by rw [hout.generations_eq]; exact h, Nat.le_refl n⟩
  · rw [heq, generations_setGeneration, hgen, hout.generations_eq]
    by_cases hsame : kind' = kind ∧ identity = token.identity
    · rw [if_pos hsame]
      obtain ⟨rfl, rfl⟩ := hsame
      exact ⟨_, rfl, (hout.newest n h).1.le⟩
    · rw [if_neg hsame]
      exact ⟨n, h, Nat.le_refl n⟩

theorem step_generations (hg : g.Grounded) (op : DependencyOp) {kind : TokenKind}
    (h : (g.generations kind).get? identity = some n) :
    ∃ n', ((g.step op).generations kind).get? identity = some n' ∧ n ≤ n' := by
  rcases step_cases g op with hsame | ⟨_, _, _, g', hok, hstep, -⟩ | ⟨root, hstep⟩ |
    ⟨kind', token, hstep, -⟩
  · exact ⟨n, by rw [hsame]; exact h, Nat.le_refl n⟩
  · exact ⟨n, by rw [hstep, install_generations hok]; exact h, Nat.le_refl n⟩
  · exact ⟨n, by rw [hstep, invalidate_generations]; exact h, Nat.le_refl n⟩
  · rw [hstep]
    exact publish_generations hg kind' kind token h

/-! ## Reinstallation -/

/-- The operation makes `x` a valid node. -/
def Installs (g : DependencyGraph) (x : DependencyKey) : DependencyOp → Prop
  | .install key version dependencies =>
    key = x ∧ ∃ g', g.install key version dependencies = .ok g'
  | .installShapeSpecialization key version observations limit =>
    key = x ∧ ∃ g', g.installShapeSpecialization key version observations limit = .ok g'
  | .publishShape token => .shape token = x ∧ ∃ l, (g.publishShape token).2 = .ok l
  | .publishPrototype token => .prototype token = x ∧ ∃ l, (g.publishPrototype token).2 = .ok l
  | .invalidate _ => False

theorem publish_invalid (hg : g.Grounded) (hx : g.isValid x = false)
    (hkey : (∃ l, (g.publish kind token).2 = .ok l) → kind.key token ≠ x) :
    (g.publish kind token).1.isValid x = false := by
  rcases publish_cases hg kind token with ⟨hsame, -⟩ | ⟨g₁, hout, ⟨e, heq⟩ | ⟨g₂, l, hi, -, heq⟩⟩
  · rwa [hsame]
  · rw [heq]
    exact hout.isValid_le x hx
  · rw [heq] at hkey ⊢
    rw [setGeneration_isValid, hi.isValid_ne (Ne.symm (hkey ⟨l, rfl⟩))]
    exact hout.isValid_le x hx

/-- An invalid node stays invalid until it is installed again. -/
theorem step_invalid (hg : g.Grounded) (hx : g.isValid x = false) (hop : ¬ g.Installs x op) :
    (g.step op).isValid x = false := by
  rcases step_cases g op with hsame | ⟨key, _, _, g', hok, hstep, horigin⟩ | ⟨root, hstep⟩ |
    ⟨kind, token, hstep, horigin⟩
  · rwa [hsame]
  · have hkey : x ≠ key := by
      rintro rfl
      rcases horigin with rfl | ⟨_, _, hok', rfl⟩
      · exact hop ⟨rfl, g', hok⟩
      · exact hop ⟨rfl, g', hok'⟩
    rw [hstep, (install_eq_ok hok).isValid_ne hkey]
    exact hx
  · rw [hstep, (invalidate_spec hg.consistent root).isValid_eq, hx, Bool.false_and]
  · rw [hstep]
    refine publish_invalid hg hx fun hok heq => hop ?_
    rcases horigin with ⟨rfl, rfl⟩ | ⟨rfl, rfl⟩
    · exact ⟨heq, hok⟩
    · exact ⟨heq, hok⟩

/-! ## Runs -/

/-- What holds of every graph whose tokens are published. -/
structure Ok (g : DependencyGraph) : Prop where
  grounded : g.Grounded
  dated : g.Dated

theorem runs_ok (hg : g.Ok) (hops : ∀ op ∈ ops, op.Publishes) :
    (runs step g ops).Ok := by
  induction ops generalizing g with
  | nil => exact hg
  | cons op ops ih =>
    refine ih ⟨step_grounded g op hg.grounded, ?_⟩ fun op' h => hops op' (List.mem_cons_of_mem _ h)
    exact step_dated hg.grounded hg.dated (hops op List.mem_cons_self)

theorem runs_generations (hg : g.Ok) (hops : ∀ op ∈ ops, op.Publishes)
    (h : (g.generations kind).get? identity = some n) :
    ∃ n', ((runs step g ops).generations kind).get? identity = some n' ∧ n ≤ n' := by
  induction ops generalizing g n with
  | nil => exact ⟨n, h, Nat.le_refl n⟩
  | cons op ops ih =>
    have hop := hops op List.mem_cons_self
    have hrest : ∀ op' ∈ ops, op'.Publishes := fun op' h => hops op' (List.mem_cons_of_mem _ h)
    obtain ⟨n₁, hn₁, hle₁⟩ := step_generations hg.grounded op h
    obtain ⟨n₂, hn₂, hle₂⟩ := ih ⟨step_grounded g op hg.grounded, step_dated hg.grounded hg.dated hop⟩
      hrest hn₁
    exact ⟨n₂, hn₂, hle₁.trans hle₂⟩

/-- `invalidate` finds what reaches its root. -/
theorem mem_invalidate (hg : g.Grounded) (hroot : g.nodes.contains root = true) :
    x ∈ (g.invalidate root).2 ↔ Relation.ReflTransGen g.DependsOn x root := by
  have hspec := invalidate_spec hg.consistent root
  constructor
  · intro hx
    exact (hspec.reachable x hx).swap
  · intro hreach
    induction hreach using Relation.ReflTransGen.head_induction_on with
    | refl => exact hspec.root_mem hroot
    | head hab _ ih => exact hspec.closed _ _ (.inl ih) hab

/-- A published token is of the newest generation. -/
theorem publish_newest (hg : g.Grounded) (hok : (g.publish kind token).2 = .ok l) :
    ((g.publish kind token).1.generations kind).get? token.identity = some token.generation := by
  rcases publish_cases hg kind token with ⟨hsame, hnewest⟩ | ⟨g₁, hout, ⟨e, heq⟩ | ⟨g₂, l', hi, hgen, heq⟩⟩
  · rw [hsame]
    exact hnewest l hok
  · rw [heq] at hok
    cases hok
  · rw [heq, generations_setGeneration, if_pos ⟨rfl, rfl⟩]

/-- The dependents of an older generation are invalid once a newer one is
published. -/
theorem publish_dependents (hg : g.Ok) (hok : (g.publish kind token).2 = .ok l)
    {older : DependencyToken} (hidentity : older.identity = token.identity)
    (hlt : older.generation < token.generation)
    (hx : Relation.TransGen g.DependsOn x (kind.key older)) :
    (g.publish kind token).1.isValid x = false := by
  rcases publish_cases hg.grounded kind token with ⟨hsame, hnewest⟩ |
    ⟨g₁, hout, ⟨e, heq⟩ | ⟨g₂, l', hi, hgen, heq⟩⟩
  · have hcurrent := hnewest l hok
    rw [← hidentity] at hcurrent
    rw [hsame]
    exact hg.grounded.invalid_trans (hg.dated.stale hcurrent hlt) hx
  · rw [heq] at hok
    cases hok
  · -- the node of the token is new, so it depends on nothing
    have hne : x ≠ kind.key token := by
      rintro rfl
      obtain ⟨b, hb, -⟩ := Relation.TransGen.head'_iff.mp hx
      have hfresh := hout.fresh hg.dated
      rw [hout.contains_eq] at hfresh
      have hnone : g.nodes.get? (kind.key token) = none := by simpa [OrdMap.contains] using hfresh
      rw [DependsOn, recorded, hnone] at hb
      cases hb
    have hx₁ : Relation.TransGen g₁.DependsOn x (kind.key older) :=
      Relation.TransGen.mono (fun a b hab => by rwa [DependsOn, hout.recorded_eq]) _ _ hx
    rw [heq, setGeneration_isValid, hi.isValid_ne hne]
    exact (hout.grounded hg.grounded).invalid_trans (hout.older hg.dated hidentity) hx₁

/-- Naming an invalid node as a dependency is refused. -/
theorem install_refused {d : DependencyKey} (hd : g.isValid d = false) (hmem : d ∈ dependencies) :
    ∃ e, g.install key version dependencies = .error e := by
  cases hresult : g.install key version dependencies with
  | error e => exact ⟨e, rfl⟩
  | ok g' => cases hd.symm.trans ((install_eq_ok hresult).valid d hmem)

end DependencyGraph

open DependencyGraph in
/-- In every run that makes tokens nodes by publishing them: the reverse edges
mirror the dependencies; valid nodes have valid transitive dependencies;
`invalidate` ends and finds and invalidates what reaches its root, and nothing
else; failed installations change nothing; and after a newer generation of a
token has been published, what depended on an older one is invalid until it is
installed again, what depends on it is invalid, and naming it is refused. -/
theorem dependency_graph_runs (ops : List DependencyOp) (hops : ∀ op ∈ ops, op.Publishes) :
    let g := runs step empty ops
    (∀ a b, a ∈ g.dependents b ↔ g.DependsOn a b) ∧
    (∀ a b, g.isValid a = true → Relation.TransGen g.DependsOn a b → g.isValid b = true) ∧
    (∀ root, g.nodes.contains root = true →
      queueAfter g.dependents g.turns [root] OrdSet.empty = [] ∧
      (g.invalidate root).2.Nodup ∧
      (∀ x, x ∈ (g.invalidate root).2 ↔ Relation.ReflTransGen g.DependsOn x root) ∧
      ∀ x, (g.invalidate root).1.isValid x = (g.isValid x && x ∉ (g.invalidate root).2)) ∧
    (∀ key version dependencies e, g.install key version dependencies = .error e →
      g.step (.install key version dependencies) = g) ∧
    (∀ key version observations limit e,
      g.installShapeSpecialization key version observations limit = .error e →
      g.step (.installShapeSpecialization key version observations limit) = g) ∧
    ∀ (kind : TokenKind) (token older : DependencyToken) (l : List DependencyKey),
      (g.publish kind token).2 = .ok l →
      older.identity = token.identity → older.generation < token.generation →
      ∀ ops' : List DependencyOp, (∀ op ∈ ops', op.Publishes) →
        let later := runs step (g.publish kind token).1 ops'
        (∀ x, Relation.TransGen g.DependsOn x (kind.key older) →
          Meets step (fun g op => ¬ g.Installs x op) (g.publish kind token).1 ops' →
          later.isValid x = false) ∧
        (∀ x, Relation.TransGen later.DependsOn x (kind.key older) → later.isValid x = false) ∧
        (∀ key version dependencies, kind.key older ∈ dependencies →
          ∃ e, later.install key version dependencies = .error e) ∧
        ∀ key version observations limit, kind.key older ∈ shapeDependencies observations →
          ∃ e, later.installShapeSpecialization key version observations limit = .error e := by
  intro g
  have hg : g.Ok := runs_ok ⟨empty_grounded, empty_dated⟩ hops
  refine ⟨hg.grounded.consistent, fun a b => hg.grounded.valid_trans, fun root hroot => ?_,
    fun _ _ _ _ h => congrArg g.orElse h, fun _ _ _ _ _ h => congrArg g.orElse h, ?_⟩
  · have hspec := invalidate_spec hg.grounded.consistent root
    exact ⟨g.invalidate_done root, hspec.nodup, fun x => mem_invalidate hg.grounded hroot,
      hspec.isValid_eq⟩
  intro kind token older l hok hidentity hlt ops' hops' later
  have hpublished : (g.publish kind token).1.Ok :=
    ⟨publish_grounded hg.grounded kind token, publish_dated hg.grounded hg.dated kind token⟩
  have hlater : later.Ok := runs_ok hpublished hops'
  have hstale : later.isValid (kind.key older) = false := by
    obtain ⟨n, hn, hle⟩ := runs_generations hpublished hops' (publish_newest hg.grounded hok)
    rw [← hidentity] at hn
    exact hlater.dated.stale hn (by omega)
  refine ⟨fun x hx hmeets => ?_, fun x => hlater.grounded.invalid_trans hstale,
    fun _ _ _ => install_refused hstale, fun key version observations limit hmem => ?_⟩
  · have hinv := runs_inv_of_meets (P := fun g : DependencyGraph => g.Grounded ∧ g.isValid x = false)
      (fun g op hop h => ⟨step_grounded g op h.1, step_invalid h.1 h.2 hop⟩)
      ⟨hpublished.grounded, publish_dependents hg hok hidentity hlt hx⟩ hmeets
    exact hinv.2
  · rcases installShapeSpecialization_cases later key version observations limit with hlimit | heq
    · exact ⟨_, hlimit⟩
    · rw [heq]
      exact install_refused hstale hmem

/-- A function that depends on a shape and on itself through its caller; the
next generation of the shape invalidates both. -/
theorem dependency_graph_runs_cycle :
    let function := DependencyKey.function ⟨1, 1⟩
    let caller := DependencyKey.function ⟨2, 1⟩
    let ops : List DependencyOp := [.publishShape ⟨10, 1⟩, .install function 1 [.shape ⟨10, 1⟩],
      .install caller 1 [function], .install function 1 [.shape ⟨10, 1⟩, caller]]
    let g := runs DependencyGraph.step .empty ops
    (g.publish .shape ⟨10, 2⟩).2 = .ok [function, caller, .shape ⟨10, 1⟩] ∧
    (g.publish .shape ⟨10, 2⟩).1.isValid caller = false ∧
    ∀ a b, a ∈ g.dependents b ↔ g.DependsOn a b := by
  intro function caller ops g
  have hops : ∀ op ∈ ops, op.Publishes := by
    intro op hop
    simp only [ops, List.mem_cons, List.not_mem_nil, or_false] at hop
    rcases hop with rfl | rfl | rfl | rfl
    · trivial
    · exact ⟨_, rfl⟩
    · exact ⟨_, rfl⟩
    · exact ⟨_, rfl⟩
  exact ⟨by decide +kernel, by decide +kernel, (dependency_graph_runs ops hops).1⟩

end QuickJit
