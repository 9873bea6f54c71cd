import Mathlib
import QuickJit.Runtime.CacheView
import QuickJit.Runtime.Coordinator

/-
  The life of one function generation.

  Seen from one function, the coordinator is a small state machine: requests
  for it wait in the queue, one may be in flight, its artifacts are resident,
  installed or invalidated, and at some point the generation is retired. `Life`
  is that view and `Life.Step` says what can happen to it. Some steps overwrite
  the state of a tier without looking at the queue; a `careful` life has them
  only where no request of that tier is under way.

  Two properties are kept. `Life.Ok` holds in every life: only the current,
  unretired generation has requests, flights or installed code, installed code
  is resident and valid, and the published tier is the highest installed one.
  `Life.Booked` holds in careful lives: queue, flight and tier states agree.
-/

namespace QuickJit

open Function

variable {key : ArtifactKey} {r : CompileRequest} {state : CompileState} {k : FunctionKey}
  {f : InFlight} {t : Tier}

/-- Whether no compilation of a tier is under way. -/
def CompileState.isResting : CompileState → Bool
  | .cold | .backoff .. | .blacklisted => true
  | _ => false

theorem CompileState.ne_of_isActive {s : CompileState} (h : s.isActive = false) :
    s ≠ .queued t ∧ s ≠ .compiling t := by
  constructor <;> rintro rfl <;> cases h

theorem CompileState.isActive_of_isResting (h : state.isResting = true) :
    state.isActive = false := by
  cases state <;> first | rfl | cases h

@[ext] structure Life where
  /-- Whether the function has a record. -/
  known : Bool
  state : Tier → CompileState
  published : Option Tier
  retired : Bool
  /-- The current generation of the function's id. -/
  watermark : Option Nat
  shutdown : Bool
  requests : List CompileRequest
  flight : Option InFlight
  installed : Tier → Option ArtifactKey
  epoch : Option Nat
  artifacts : ArtifactKey → Option Resident
  /-- The last accepted request of each tier. -/
  accepted : Tier → Option CompileRequest

namespace Life

/-- A function nothing has happened to. -/
def initial : Life where
  known := false
  state _ := .cold
  published := none
  retired := false
  watermark := none
  shutdown := false
  requests := []
  flight := none
  installed _ := none
  epoch := none
  artifacts _ := none
  accepted _ := none

/-- The key is one that function `k`, whose baseline is compiled as `base`, has
for a tier. -/
structure KeyFor (k : FunctionKey) (base : ArtifactKey) (key : ArtifactKey) (tier : Tier) :
    Prop where
  function_eq : key.function = k
  tier_eq : key.tier = tier
  withTier_eq : key.withTier .baseline = base
  baseline_eq : tier = .baseline → key = base

/-- A request of the tier waits or compiles. -/
def Pending (l : Life) (t : Tier) : Prop :=
  l.retired = false ∧ (l.state t = .queued t ∨ l.state t = .compiling t)

/-- Whether a request is compiled from primary feedback. -/
def isPrimary (r : CompileRequest) : Bool := r.tier = .optimizing && r.sidePathProfile.isNone

/-- What retirement leaves of a life. -/
def retire (l : Life) : Life :=
  { l with
    known := true
    published := none
    retired := true
    requests := []
    flight := none
    installed := fun _ => none
    artifacts := fun key => (l.artifacts key).map Resident.mark }

/-- What can happen to function `k`. -/
inductive Step (k : FunctionKey) (base : ArtifactKey) (careful : Prop) : Life → Life → Prop
  /-- A request is accepted. -/
  | accept {l : Life} (r : CompileRequest) (epoch : Option Nat)
      (hkey : r.key = k) (hfor : KeyFor k base r.artifactKey r.tier)
      (hlive : l.watermark = some k.generation ∧ l.retired = false ∧ l.shutdown = false)
      (hactive : ∀ t, (l.state t).isActive = false) (hstate : l.state r.tier ≠ .blacklisted)
      (hbaseline : r.tier = .baseline → ∀ t, l.installed t = none)
      (hprimary : isPrimary r = true → l.installed .optimizing = none)
      (hepoch : isPrimary r = false → epoch = l.epoch) :
      Step k base careful l { l with
        known := true
        state := Function.update l.state r.tier (.queued r.tier)
        requests := l.requests ++ [r]
        epoch := epoch
        accepted := Function.update l.accepted r.tier (some r) }
  /-- Requests change places. -/
  | reorder {l : Life} (requests : List CompileRequest) (hperm : requests.Perm l.requests) :
      Step k base careful l { l with requests }
  /-- A request that is no longer wanted is dropped. -/
  | discard {l : Life} (r : CompileRequest) (rest : List CompileRequest)
      (hrequests : l.requests = r :: rest)
      (hunwanted : l.known = true → l.state r.tier ≠ .queued r.tier) :
      Step k base careful l { l with requests := rest }
  /-- A request is handed out. -/
  | begin {l : Life} (r : CompileRequest) (rest : List CompileRequest)
      (hrequests : l.requests = r :: rest) (hstate : l.state r.tier = .queued r.tier) :
      Step k base careful l { l with
        state := Function.update l.state r.tier (.compiling r.tier)
        requests := rest
        flight := some r.flight }
  /-- The request in flight goes back into the queue. -/
  | rollback {l : Life} (r : CompileRequest) (hkey : r.key = k) (hflight : l.flight = some r.flight) :
      Step k base careful l { l with
        state := Function.update l.state r.tier (.queued r.tier)
        requests := r :: l.requests
        flight := none }
  /-- The compilation in flight fails. -/
  | fail {l : Life} (f : InFlight) (state : CompileState) (hflight : l.flight = some f)
      (hstate : l.state f.tier = .compiling f.tier) (hidle : state.isResting = true) :
      Step k base careful l { l with state := Function.update l.state f.tier state, flight := none }
  /-- The compilation in flight is installed. -/
  | install {l : Life} (f : InFlight) (artifact : CompiledArtifact) (hflight : l.flight = some f)
      (hstate : l.state f.tier = .compiling f.tier) (hkey : artifact.key = f.artifactKey)
      (hreferrers : f.tier = .baseline → ∀ key, (l.artifacts key).isSome → key.tier = .optimizing →
        key.withTier .baseline ≠ artifact.key)
      (hepoch : f.tier = .optimizing → ∀ metadata, artifact.optimized = some metadata →
        metadata.feedbackEpoch = f.feedbackEpoch ∧
          (f.sidePath = false → l.epoch = some f.feedbackEpoch)) :
      Step k base careful l { l with
        state := Function.update l.state f.tier .cold
        published := some f.tier
        flight := none
        installed := Function.update l.installed f.tier (some artifact.key)
        epoch := if f.sidePath then some f.feedbackEpoch else l.epoch
        artifacts := Function.update l.artifacts artifact.key (some artifact.resident) }
  /-- An artifact is evicted. -/
  | evict {l : Life} (key : ArtifactKey) (hkey : key.function = k) :
      Step k base careful l { l with
        published :=
          if l.published = some key.tier then
            if key.tier = .optimizing ∧ (l.installed .baseline).isSome then some .baseline else none
          else l.published
        installed := Function.update l.installed key.tier none
        artifacts := Function.update l.artifacts key none }
  /-- A tier is given up. -/
  | reject {l : Life} (t : Tier) (hcareful : careful → ¬ l.Pending t) :
      Step k base careful l { l with
        known := true, state := Function.update l.state t .blacklisted }
  /-- The optimizing tier is unpublished. -/
  | demote {l : Life} (state : CompileState) (hidle : state.isResting = true)
      (hcareful : careful → ¬ l.Pending .optimizing) :
      Step k base careful l { l with
        known := true
        state := Function.update l.state .optimizing state
        published := if (l.installed .baseline).isSome then some .baseline else none
        installed := Function.update l.installed .optimizing none }
  /-- The baseline tier is unpublished. -/
  | dropBaseline {l : Life} (state : CompileState) (hidle : state.isResting = true)
      (hinstalled : (l.installed .baseline).isSome) :
      Step k base careful l { l with
        state := Function.update l.state .baseline state
        published := if l.published = some .baseline then none else l.published
        installed := Function.update l.installed .baseline none }
  | retire {l : Life} : Step k base careful l l.retire
  /-- A newer generation of the id becomes current. -/
  | advance {l : Life} (generation : Nat) (hnewer : ∀ w, l.watermark = some w → w < generation)
      (hretired : l.known = true → k.generation < generation → l.retired = true) :
      Step k base careful l { l with watermark := some generation }
  /-- The coordinator is shut down. -/
  | shut {l : Life} (hretired : l.known = true → l.retired = true) :
      Step k base careful l { l with shutdown := true, requests := [], flight := none }
  /-- Invalidated artifacts are reclaimed. -/
  | reclaim {l : Life} (artifacts : ArtifactKey → Option Resident)
      (hkept : ∀ key, artifacts key = l.artifacts key ∨
        artifacts key = none ∧ ∃ x, l.artifacts key = some x ∧ x.invalidated = true) :
      Step k base careful l { l with artifacts }

/-- Any number of steps. -/
def Steps (k : FunctionKey) (base : ArtifactKey) (careful : Prop) : Life → Life → Prop :=
  Relation.ReflTransGen (Step k base careful)

/-- What a function offers its callers: the published tier and the installed
keys. -/
abbrev Offer := Option Tier × (Tier → Option ArtifactKey)

/-- What an eviction does to the offer of function `k`. -/
def evictOffer (k : FunctionKey) (offer : Offer) (key : ArtifactKey) : Offer :=
  if key.function = k then
    (if offer.1 = some key.tier then
        if key.tier = .optimizing ∧ (offer.2 .baseline).isSome then some .baseline else none
      else offer.1,
      Function.update offer.2 key.tier none)
  else offer

/-- The artifacts of function `k` without the evicted ones. -/
def keepArtifacts (k : FunctionKey) (artifacts : ArtifactKey → Option Resident)
    (evicted : List ArtifactKey) : ArtifactKey → Option Resident :=
  fun key => if key ∈ evicted ∧ key.function = k then none else artifacts key

theorem keepArtifacts_cons {artifacts : ArtifactKey → Option Resident} {evicted : List ArtifactKey} :
    keepArtifacts k artifacts (key :: evicted) =
      keepArtifacts k (if key.function = k then update artifacts key none else artifacts)
        evicted := by
  funext key'
  unfold keepArtifacts
  by_cases hk : key' = key
  · subst hk
    by_cases hkey : key'.function = k <;> simp [hkey]
  · by_cases hkey : key.function = k <;> simp [hkey, hk]

/-- A number of evictions, of this function's artifacts and of others. -/
theorem Steps.evictAll {base : ArtifactKey} {careful : Prop} :
    ∀ (evicted : List ArtifactKey) (l : Life), Steps k base careful l { l with
      published := (evicted.foldl (evictOffer k) (l.published, l.installed)).1
      installed := (evicted.foldl (evictOffer k) (l.published, l.installed)).2
      artifacts := keepArtifacts k l.artifacts evicted }
  | [], l => by
    have hsame : keepArtifacts k l.artifacts [] = l.artifacts := by
      funext key
      simp [keepArtifacts]
    rw [hsame]
    exact .refl
  | key :: evicted, l => by
    rw [List.foldl_cons, keepArtifacts_cons]
    unfold evictOffer
    by_cases hkey : key.function = k
    · rw [if_pos hkey, if_pos hkey]
      exact .head (.evict key hkey) (Steps.evictAll evicted _)
    · rw [if_neg hkey, if_neg hkey]
      exact Steps.evictAll evicted l

/-- Requests that are no longer wanted are dropped. -/
theorem Steps.discards {base : ArtifactKey} {careful : Prop} :
    ∀ (dropped : List CompileRequest) {rest : List CompileRequest} {l : Life},
      l.requests = dropped ++ rest →
      (∀ r ∈ dropped, l.known = true → l.state r.tier ≠ .queued r.tier) →
      Steps k base careful l { l with requests := rest }
  | [], rest, l, hrequests, _ => by
    have hsame : { l with requests := rest } = l := by rw [← List.nil_append rest, ← hrequests]
    rw [hsame]
    exact .refl
  | r :: dropped, rest, l, hrequests, hunwanted => by
    refine .head (.discard r (dropped ++ rest) hrequests (hunwanted r List.mem_cons_self)) ?_
    exact Steps.discards dropped (l := { l with requests := dropped ++ rest }) rfl
      fun r' hr' => hunwanted r' (List.mem_cons_of_mem _ hr')

/-! ## What every life keeps -/

/-- A recorded generation that is current and may run. -/
structure Current (k : FunctionKey) (known : Bool) (watermark : Option Nat)
    (retired shutdown : Bool) : Prop where
  known : known = true
  watermark : watermark = some k.generation
  retired : retired = false
  shutdown : shutdown = false

abbrev Live (k : FunctionKey) (l : Life) : Prop :=
  Current k l.known l.watermark l.retired l.shutdown

/-- The generation is retired, superseded or shut down. -/
def Barred (k : FunctionKey) (l : Life) : Prop :=
  l.retired = true ∨ l.shutdown = true ∨ ∃ w, l.watermark = some w ∧ k.generation < w

/-- Something of the function is queued, in flight or installed. -/
def Engaged (l : Life) : Prop :=
  l.requests ≠ [] ∨ l.flight ≠ none ∨ ∃ t, l.installed t ≠ none

structure Ok (k : FunctionKey) (base : ArtifactKey) (l : Life) : Prop where
  live : l.Engaged → l.Live k
  requests : ∀ r ∈ l.requests, r.key = k ∧ KeyFor k base r.artifactKey r.tier
  flight : ∀ f, l.flight = some f → KeyFor k base f.artifactKey f.tier
  installed : ∀ t key, l.installed t = some key → KeyFor k base key t ∧
    ∃ x, l.artifacts key = some x ∧ x.invalidated = false
  published : ∀ t, l.published = some t → l.installed t ≠ none ∧
    (t = .baseline → l.installed .optimizing = none)
  epoch : ∀ key x metadata, l.installed .optimizing = some key → l.artifacts key = some x →
    x.artifact.optimized = some metadata → l.epoch = some metadata.feedbackEpoch
  /-- That a tier is installed is not kept in its state. -/
  states : ∀ t t', l.state t ≠ .installed t'
  resident : ∀ key x, l.artifacts key = some x → KeyFor k base key key.tier

variable {k : FunctionKey} {base : ArtifactKey} {careful : Prop} {l l' : Life}

theorem Live.not_barred (h : l.Live k) : ¬ l.Barred k := by
  rintro (hr | hs | ⟨w, hw, hlt⟩)
  · exact absurd (h.retired.symm.trans hr) Bool.false_ne_true
  · exact absurd (h.shutdown.symm.trans hs) Bool.false_ne_true
  · rw [h.watermark, Option.some.injEq] at hw
    omega

theorem initial_ok : initial.Ok k base :=
  ⟨fun h => absurd h (by simp [Engaged, initial]), nofun, nofun, nofun, nofun, nofun, nofun, nofun⟩

theorem Step.barred (h : Step k base careful l l') (hb : l.Barred k) : l'.Barred k := by
  cases h with
  | retire => exact .inl rfl
  | advance generation hnewer hretired =>
    refine hb.imp_right (Or.imp_right ?_)
    rintro ⟨w, hw, hlt⟩
    exact ⟨generation, rfl, hlt.trans (hnewer w hw)⟩
  | shut => exact .inr (.inl rfl)
  | _ => exact hb

theorem engaged_of_requests (h : r ∈ l.requests) : l.Engaged :=
  .inl fun hnil => absurd h (by simp [hnil])

theorem engaged_of_flight (h : l.flight = some f) : l.Engaged :=
  .inr (.inl fun hnone => nomatch h.symm.trans hnone)

theorem engaged_of_installed (h : l.installed t = some key) :
    l.Engaged :=
  .inr (.inr ⟨t, fun hnone => nomatch h.symm.trans hnone⟩)

theorem states_update (h : ∀ t t', l.state t ≠ .installed t') (t₀ : Tier)
    (hstate : ∀ t', state ≠ .installed t') :
    ∀ t t', update l.state t₀ state t ≠ .installed t' := by
  intro t t'
  by_cases ht : t = t₀
  · rw [ht, update_self]
    exact hstate t'
  · rw [update_of_ne ht]
    exact h t t'

theorem installed_ne_of_isResting (h : state.isResting = true) (t : Tier) :
    state ≠ .installed t := by
  rintro rfl
  cases h

/-- Uninstalling a tier keeps what is known about the other. -/
theorem installed_of_uninstall {t' : Tier} (hi : update l.installed t none t' = some key) :
    t' ≠ t ∧ l.installed t' = some key := by
  by_cases ht : t' = t
  · subst ht
    simp at hi
  · rw [update_of_ne ht] at hi
    exact ⟨ht, hi⟩

theorem Ok.evict (h : l.Ok k base) (key : ArtifactKey) :
    Ok k base { l with
      published :=
        if l.published = some key.tier then
          if key.tier = .optimizing ∧ (l.installed .baseline).isSome then some .baseline else none
        else l.published
      installed := update l.installed key.tier none
      artifacts := update l.artifacts key none } := by
  have hother : ∀ t key', update l.installed key.tier none t = some key' →
      l.installed t = some key' ∧ key' ≠ key := by
    intro t key' hi
    obtain ⟨ht, hinstalled⟩ := installed_of_uninstall hi
    refine ⟨hinstalled, fun heq => ht ?_⟩
    rw [← heq]
    exact (h.installed t key' hinstalled).1.tier_eq.symm
  constructor
  case live =>
    rintro (hr | hf | ⟨t, ht⟩)
    · exact h.live (.inl hr)
    · exact h.live (.inr (.inl hf))
    · obtain ⟨key', hkey'⟩ := Option.ne_none_iff_exists'.mp ht
      exact h.live (engaged_of_installed (hother t key' hkey').1)
  case requests => exact h.requests
  case flight => exact h.flight
  case installed =>
    intro t key' hi
    obtain ⟨hi, hne⟩ := hother t key' hi
    dsimp only
    rw [update_of_ne hne]
    exact h.installed t key' hi
  case published =>
    intro t ht
    dsimp only at ht ⊢
    split at ht
    case isTrue hp =>
      split at ht
      case isTrue hopt =>
        cases ht
        rw [hopt.1, update_of_ne (by decide), update_self]
        exact ⟨Option.isSome_iff_ne_none.mp hopt.2, fun _ => rfl⟩
      case isFalse => cases ht
    case isFalse hp =>
      obtain ⟨hi, hhigh⟩ := h.published t ht
      have hne : t ≠ key.tier := fun heq => hp (heq ▸ ht)
      rw [update_of_ne hne]
      refine ⟨hi, fun hb => ?_⟩
      by_cases hopt : key.tier = .optimizing
      · rw [hopt, update_self]
      · rw [update_of_ne (Ne.symm hopt)]
        exact hhigh hb
  case epoch =>
    intro key' x metadata hi hx hm
    obtain ⟨hi, hne⟩ := hother _ key' hi
    dsimp only at hx
    rw [update_of_ne hne] at hx
    exact h.epoch key' x metadata hi hx hm
  case states => exact h.states
  case resident =>
    intro key' x hx
    by_cases hkey : key' = key
    · dsimp only at hx
      rw [hkey, update_self] at hx
      cases hx
    · dsimp only at hx
      rw [update_of_ne hkey] at hx
      exact h.resident key' x hx

theorem Ok.install (h : l.Ok k base) {artifact : CompiledArtifact} (hflight : l.flight = some f)
    (hkey : artifact.key = f.artifactKey)
    (hreferrers : f.tier = .baseline → ∀ key, (l.artifacts key).isSome → key.tier = .optimizing →
      key.withTier .baseline ≠ artifact.key)
    (hepoch : f.tier = .optimizing → ∀ metadata, artifact.optimized = some metadata →
      metadata.feedbackEpoch = f.feedbackEpoch ∧
        (f.sidePath = false → l.epoch = some f.feedbackEpoch)) :
    Ok k base { l with
      state := update l.state f.tier .cold
      published := some f.tier
      flight := none
      installed := update l.installed f.tier (some artifact.key)
      epoch := if f.sidePath then some f.feedbackEpoch else l.epoch
      artifacts := update l.artifacts artifact.key (some artifact.resident) } := by
  have hlive := h.live (engaged_of_flight hflight)
  have hfor := hkey ▸ h.flight f hflight
  -- a baseline cannot replace one that installed optimizing code rests on
  have hopt : f.tier = .baseline → l.installed .optimizing = none := by
    intro hb
    by_contra hsome
    obtain ⟨key, hi⟩ := Option.ne_none_iff_exists'.mp hsome
    obtain ⟨hkeyFor, x, hx, -⟩ := h.installed _ key hi
    refine hreferrers hb key (by simp [hx]) hkeyFor.tier_eq ?_
    rw [hkeyFor.withTier_eq, hfor.baseline_eq hb]
  constructor
  case live => exact fun _ => hlive
  case requests => exact h.requests
  case flight => nofun
  case installed =>
    intro t key hi
    dsimp only at hi ⊢
    by_cases ht : t = f.tier
    · subst ht
      rw [update_self] at hi
      cases hi
      rw [update_self]
      exact ⟨hfor, _, rfl, rfl⟩
    · rw [update_of_ne ht] at hi
      obtain ⟨hkeyFor, hx⟩ := h.installed t key hi
      have hne : key ≠ artifact.key := fun heq =>
        ht (hkeyFor.tier_eq.symm.trans (heq ▸ hfor.tier_eq))
      rw [update_of_ne hne]
      exact ⟨hkeyFor, hx⟩
  case published =>
    intro t ht
    cases ht
    dsimp only
    rw [update_self]
    refine ⟨nofun, fun hb => ?_⟩
    rw [update_of_ne (by rw [hb]; decide)]
    exact hopt hb
  case epoch =>
    intro key x metadata hi hx hm
    dsimp only at hi hx ⊢
    by_cases ht : f.tier = .optimizing
    · rw [ht, update_self] at hi
      cases hi
      rw [update_self] at hx
      cases hx
      obtain ⟨hsame, hlatest⟩ := hepoch ht metadata hm
      split
      · rw [hsame]
      · rw [hlatest (by simpa using ‹¬ f.sidePath = true›), hsame]
    · have hb : f.tier = .baseline := by
        cases hft : f.tier with
        | baseline => rfl
        | optimizing => exact absurd hft ht
      rw [update_of_ne (Ne.symm ht), hopt hb] at hi
      cases hi
  case states => exact states_update h.states _ nofun
  case resident =>
    intro key x hx
    by_cases hsame : key = artifact.key
    · rw [hsame, hfor.tier_eq]
      exact hfor
    · dsimp only at hx
      rw [update_of_ne hsame] at hx
      exact h.resident key x hx

/-- A tier is taken down; what is installed of the other one stays. -/
theorem Ok.uninstall (h : l.Ok k base) {known : Bool} {published : Option Tier}
    (hknown : l.known = true → known = true) (hidle : state.isResting = true)
    (hpublished : ∀ t', published = some t' → update l.installed t none t' ≠ none ∧
      (t' = .baseline → update l.installed t none .optimizing = none)) :
    Ok k base { l with
      known
      state := update l.state t state
      published
      installed := update l.installed t none } := by
  refine ⟨fun he => ?_, h.requests, h.flight,
    fun t' key hi => h.installed t' key (installed_of_uninstall hi).2, hpublished,
    fun key x metadata hi => h.epoch key x metadata (installed_of_uninstall hi).2,
    states_update h.states _ (installed_ne_of_isResting hidle), h.resident⟩
  have hlive := h.live (he.imp_right (Or.imp_right ?_))
  · exact ⟨hknown hlive.known, hlive.watermark, hlive.retired, hlive.shutdown⟩
  · rintro ⟨t', ht⟩
    obtain ⟨key, hi⟩ := Option.ne_none_iff_exists'.mp ht
    exact ⟨t', fun hnone => nomatch (installed_of_uninstall hi).2.symm.trans hnone⟩

theorem Ok.reclaim (h : l.Ok k base) {artifacts : ArtifactKey → Option Resident}
    (hkept : ∀ key, artifacts key = l.artifacts key ∨
      artifacts key = none ∧ ∃ x, l.artifacts key = some x ∧ x.invalidated = true) :
    Ok k base { l with artifacts } := by
  have hold : ∀ {key x}, artifacts key = some x → l.artifacts key = some x := fun {key x} hx => by
    rcases hkept key with hsame | ⟨hnone, -⟩
    · exact hsame.symm.trans hx
    · cases hnone.symm.trans hx
  refine ⟨h.live, h.requests, h.flight, fun t key hi => ?_, h.published,
    fun key x metadata hi hx => h.epoch key x metadata hi (hold hx), h.states,
    fun key x hx => h.resident key x (hold hx)⟩
  obtain ⟨hfor, x, hx, hvalid⟩ := h.installed t key hi
  refine ⟨hfor, x, ?_, hvalid⟩
  rcases hkept key with hsame | ⟨-, y, hy, hinvalid⟩
  · exact hsame.trans hx
  · cases hx.symm.trans hy
    cases hvalid.symm.trans hinvalid

/-- Every step keeps `Ok`. -/
theorem Step.ok (hstep : Step k base careful l l') (h : l.Ok k base) : l'.Ok k base := by
  cases hstep with
  | accept r epoch hkey hfor hlive hactive hstate hbaseline hprimary hepoch =>
    refine ⟨fun _ => ⟨rfl, hlive.1, hlive.2.1, hlive.2.2⟩, fun r' hr' => ?_, h.flight, h.installed,
      h.published, fun key x metadata hi hx hm => ?_, states_update h.states _ nofun, h.resident⟩
    · rcases List.mem_append.mp hr' with hr' | hr'
      · exact h.requests r' hr'
      · obtain rfl := List.mem_singleton.mp hr'
        exact ⟨hkey, hfor⟩
    · cases hp : isPrimary r with
      | true => cases (hprimary hp).symm.trans hi
      | false => exact (hepoch hp).trans (h.epoch key x metadata hi hx hm)
  | reorder requests hperm =>
    refine ⟨fun he => h.live (he.imp_left fun hr hnil => hr ?_),
      fun r hr => h.requests r (hperm.mem_iff.mp hr), h.flight, h.installed, h.published, h.epoch,
      h.states, h.resident⟩
    rw [hnil] at hperm
    exact hperm.eq_nil
  | discard r rest hrequests hunwanted =>
    refine ⟨fun he => h.live ?_, fun r' hr' => h.requests r' ?_, h.flight, h.installed, h.published,
      h.epoch, h.states, h.resident⟩
    · exact he.imp_left fun _ hnil => List.cons_ne_nil _ _ (hrequests.symm.trans hnil)
    · exact hrequests ▸ List.mem_cons_of_mem _ hr'
  | begin r rest hrequests hstate =>
    have hmem : r ∈ l.requests := hrequests ▸ List.mem_cons_self
    have hlive := h.live (engaged_of_requests hmem)
    refine ⟨fun _ => hlive,
      fun r' hr' => h.requests r' ?_, fun f hf => ?_, h.installed, h.published, h.epoch,
      states_update h.states _ nofun, h.resident⟩
    · exact hrequests ▸ List.mem_cons_of_mem _ hr'
    · cases hf
      exact (h.requests r hmem).2
  | rollback r hkey hflight =>
    have hlive := h.live (engaged_of_flight hflight)
    refine ⟨fun _ => hlive,
      fun r' hr' => ?_, nofun, h.installed, h.published, h.epoch, states_update h.states _ nofun, h.resident⟩
    rcases List.mem_cons.mp hr' with rfl | hr'
    · exact ⟨hkey, h.flight _ hflight⟩
    · exact h.requests r' hr'
  | fail f state hflight hstate hidle =>
    have hlive := h.live (engaged_of_flight hflight)
    exact ⟨fun _ => hlive, h.requests, nofun,
      h.installed, h.published, h.epoch, states_update h.states _ (installed_ne_of_isResting hidle), h.resident⟩
  | install f artifact hflight hstate hkey hreferrers hepoch =>
    exact h.install hflight hkey hreferrers hepoch
  | evict key hkey => exact h.evict key
  | reject t hcareful =>
    refine ⟨fun he => ?_, h.requests, h.flight, h.installed, h.published, h.epoch,
      states_update h.states _ nofun, h.resident⟩
    have hlive := h.live he
    exact ⟨rfl, hlive.watermark, hlive.retired, hlive.shutdown⟩
  | demote state hidle hcareful =>
    refine h.uninstall (fun _ => rfl) hidle fun t ht => ?_
    split at ht
    case isTrue hb =>
      cases ht
      rw [update_of_ne (by decide), update_self]
      exact ⟨Option.isSome_iff_ne_none.mp hb, fun _ => rfl⟩
    case isFalse => cases ht
  | dropBaseline state hidle hinstalled =>
    refine h.uninstall id hidle fun t ht => ?_
    split at ht
    case isTrue => cases ht
    case isFalse hp =>
      have hne : t ≠ .baseline := fun heq => hp (heq ▸ ht)
      rw [update_of_ne hne]
      exact ⟨(h.published t ht).1, fun hb => absurd hb hne⟩
  | retire =>
    refine ⟨fun he => ?_, nofun, nofun, nofun, nofun, nofun, h.states, fun key x hx => ?_⟩
    · simp [Engaged, Life.retire] at he
    · obtain ⟨y, hy, -⟩ := Option.map_eq_some_iff.mp hx
      exact h.resident key y hy
  | advance generation hnewer hretired =>
    refine ⟨fun he => ?_, h.requests, h.flight, h.installed, h.published, h.epoch, h.states, h.resident⟩
    have hlive := h.live he
    have hlt := hnewer _ hlive.watermark
    cases hlive.retired.symm.trans (hretired hlive.known hlt)
  | shut hretired =>
    refine ⟨fun he => ?_, nofun, nofun, h.installed, h.published, h.epoch, h.states, h.resident⟩
    rcases he with hr | hf | hi
    · exact absurd rfl hr
    · exact absurd rfl hf
    · have hlive := h.live (.inr (.inr hi))
      cases hlive.retired.symm.trans (hretired hlive.known)
  | reclaim artifacts hkept => exact h.reclaim hkept

/-! ## What careful lives keep -/

structure Booked (l : Life) : Prop where
  shape : ∀ t, (l.state t).isActive = true → l.state t = .queued t ∨ l.state t = .compiling t
  queued : l.retired = false → ∀ t, l.state t = .queued t ↔ ∃ r ∈ l.requests, r.tier = t
  compiling : l.retired = false → ∀ t, l.state t = .compiling t ↔ ∃ f, l.flight = some f ∧ f.tier = t
  single : l.requests.length + l.flight.toList.length ≤ 1
  idle : l.installed .baseline ≠ none → (l.state .baseline).isActive = false
  latest : ∀ r ∈ l.requests, ∃ r', l.accepted r.tier = some r' ∧ r'.flight = r.flight
  latestFlight : ∀ f, l.flight = some f → ∃ r', l.accepted f.tier = some r' ∧ r'.flight = f

theorem initial_booked : initial.Booked :=
  ⟨nofun, fun _ _ => ⟨nofun, nofun⟩, fun _ _ => ⟨nofun, nofun⟩, Nat.zero_le _, nofun, nofun, nofun⟩

namespace Booked

variable (h : l.Booked)

include h

/-- A request in the queue is the only one, and nothing is in flight. -/
theorem alone {rest : List CompileRequest} (hr : l.requests = r :: rest) :
    rest = [] ∧ l.flight = none := by
  have hsingle := h.single
  rw [hr, List.length_cons] at hsingle
  refine ⟨List.length_eq_zero_iff.mp (by omega), ?_⟩
  cases hf : l.flight with
  | none => rfl
  | some f =>
    rw [hf, Option.toList_some, List.length_singleton] at hsingle
    omega

/-- Nothing waits behind a request in flight. -/
theorem no_requests (hf : l.flight = some f) : l.requests = [] := by
  have hsingle := h.single
  rw [hf, Option.toList_some, List.length_singleton] at hsingle
  exact List.length_eq_zero_iff.mp (by omega)

/-- A life without active tiers has no requests and no flight. -/
theorem at_rest (hretired : l.retired = false) (hactive : ∀ t, (l.state t).isActive = false) :
    l.requests = [] ∧ l.flight = none := by
  constructor
  · refine List.eq_nil_iff_forall_not_mem.mpr fun r hr => ?_
    have hq := (h.queued hretired r.tier).mpr ⟨r, hr, rfl⟩
    cases (hactive r.tier).symm.trans (congrArg CompileState.isActive hq)
  · cases hf : l.flight with
    | none => rfl
    | some f =>
      have hc := (h.compiling hretired f.tier).mpr ⟨f, hf, rfl⟩
      cases (hactive f.tier).symm.trans (congrArg CompileState.isActive hc)

/-- One tier's state is overwritten while requests come and go: the books have
to be checked for that tier only. -/
theorem write {t₀ : Tier} {requests : List CompileRequest} {flight : Option InFlight}
    {accepted : Tier → Option CompileRequest}
    (hshape : state.isActive = true → state = .queued t₀ ∨ state = .compiling t₀)
    (hqueued : l.retired = false → (state = .queued t₀ ↔ ∃ r ∈ requests, r.tier = t₀))
    (hcompiling : l.retired = false →
      (state = .compiling t₀ ↔ ∃ f, flight = some f ∧ f.tier = t₀))
    (hrequests : ∀ t, t ≠ t₀ → ((∃ r ∈ l.requests, r.tier = t) ↔ ∃ r ∈ requests, r.tier = t))
    (hflight : ∀ t, t ≠ t₀ →
      ((∃ f, l.flight = some f ∧ f.tier = t) ↔ ∃ f, flight = some f ∧ f.tier = t))
    (hsingle : requests.length + flight.toList.length ≤ 1)
    (hidle : t₀ = .baseline → l.installed .baseline ≠ none → state.isActive = false)
    (hlatest : ∀ r ∈ requests, ∃ r', accepted r.tier = some r' ∧ r'.flight = r.flight)
    (hlatestFlight : ∀ f, flight = some f → ∃ r', accepted f.tier = some r' ∧ r'.flight = f) :
    Booked { l with state := update l.state t₀ state, requests, flight, accepted } := by
  refine ⟨fun t ha => ?_, fun hr t => ?_, fun hr t => ?_, hsingle, fun hi => ?_, hlatest,
    hlatestFlight⟩
  all_goals dsimp only at *
  · by_cases ht : t = t₀
    · subst ht
      rw [update_self] at ha ⊢
      exact hshape ha
    · rw [update_of_ne ht] at ha ⊢
      exact h.shape t ha
  · by_cases ht : t = t₀
    · subst ht
      rw [update_self]
      exact hqueued hr
    · rw [update_of_ne ht, h.queued hr t]
      exact hrequests t ht
  · by_cases ht : t = t₀
    · subst ht
      rw [update_self]
      exact hcompiling hr
    · rw [update_of_ne ht, h.compiling hr t]
      exact hflight t ht
  · by_cases ht : .baseline = t₀
    · subst ht
      rw [update_self]
      exact hidle rfl hi
    · rw [update_of_ne ht]
      exact h.idle hi

/-- Overwriting the state of a tier without requests. -/
theorem settle (hidle : state.isActive = false) (hnot : ¬ l.Pending t) :
    Booked { l with state := update l.state t state } := by
  refine h.write (fun ha => nomatch hidle.symm.trans ha) (fun hr => ?_) (fun hr => ?_)
    (fun _ _ => Iff.rfl) (fun _ _ => Iff.rfl) h.single (fun _ _ => hidle) h.latest h.latestFlight
  · rw [← h.queued hr t]
    exact iff_of_false (CompileState.ne_of_isActive hidle).1 fun hq => hnot ⟨hr, .inl hq⟩
  · rw [← h.compiling hr t]
    exact iff_of_false (CompileState.ne_of_isActive hidle).2 fun hc => hnot ⟨hr, .inr hc⟩

/-- The flight lands and its tier comes to rest. -/
theorem land (hflight : l.flight = some f) (hidle : state.isActive = false) :
    Booked { l with state := update l.state f.tier state, flight := none } := by
  have hnone := h.no_requests hflight
  refine h.write (fun ha => nomatch hidle.symm.trans ha) (fun _ => ?_) (fun _ => ?_)
    (fun _ _ => Iff.rfl) (fun t ht => ?_) ?_ (fun _ _ => hidle) h.latest nofun
  · rw [hnone]
    exact iff_of_false (CompileState.ne_of_isActive hidle).1 nofun
  · exact iff_of_false (CompileState.ne_of_isActive hidle).2 nofun
  · simp [hflight, Ne.symm ht]
  · rw [hnone]
    exact Nat.zero_le _

theorem accept (r : CompileRequest) (hretired : l.retired = false)
    (hactive : ∀ t, (l.state t).isActive = false)
    (hbaseline : r.tier = .baseline → ∀ t, l.installed t = none) :
    Booked { l with
      state := update l.state r.tier (.queued r.tier)
      requests := l.requests ++ [r]
      accepted := update l.accepted r.tier (some r) } := by
  obtain ⟨hrequests, hflight⟩ := h.at_rest hretired hactive
  rw [hrequests, List.nil_append]
  refine h.write (fun _ => .inl rfl) (fun _ => by simp) (fun _ => by simp [hflight])
    (fun t ht => by simp [hrequests, Ne.symm ht]) (fun _ _ => Iff.rfl) ?_
    (fun ht hi => absurd (hbaseline ht _) hi) (fun r' hr' => ?_)
    fun f hf => nomatch hflight.symm.trans hf
  · rw [hflight]
    exact Nat.le_refl _
  · obtain rfl := List.mem_singleton.mp hr'
    exact ⟨r', update_self .., rfl⟩

theorem begin {rest : List CompileRequest} (hretired : l.retired = false)
    (hrequests : l.requests = r :: rest) :
    Booked { l with
      state := update l.state r.tier (.compiling r.tier)
      requests := rest
      flight := some r.flight } := by
  obtain ⟨rfl, hflight⟩ := h.alone hrequests
  have hmem : r ∈ l.requests := hrequests ▸ List.mem_cons_self
  refine h.write (fun _ => .inr rfl) (fun _ => ⟨nofun, nofun⟩)
    (fun _ => ⟨fun _ => ⟨_, rfl, rfl⟩, fun _ => rfl⟩)
    (fun t ht => by simp [hrequests, Ne.symm ht])
    (fun t ht => by simp [hflight, CompileRequest.flight, Ne.symm ht]) (Nat.le_refl _)
    (fun ht hi => ?_) nofun fun f hf => ?_
  · have hq := (h.queued hretired _).mpr ⟨r, hmem, ht⟩
    cases (h.idle hi).symm.trans (congrArg CompileState.isActive hq)
  · cases hf
    exact h.latest r hmem

theorem rollback (hretired : l.retired = false) (hflight : l.flight = some r.flight) :
    Booked { l with
      state := update l.state r.tier (.queued r.tier)
      requests := r :: l.requests
      flight := none } := by
  have hnone := h.no_requests hflight
  rw [hnone]
  refine h.write (fun _ => .inl rfl) (fun _ => by simp) (fun _ => ⟨nofun, nofun⟩)
    (fun t ht => by simp [hnone, Ne.symm ht])
    (fun t ht => by simp [hflight, CompileRequest.flight, Ne.symm ht]) (Nat.le_refl _)
    (fun ht hi => ?_) (fun r' hr' => ?_) nofun
  · have hc := (h.compiling hretired _).mpr ⟨_, hflight, ht⟩
    cases (h.idle hi).symm.trans (congrArg CompileState.isActive hc)
  · obtain rfl := List.mem_singleton.mp hr'
    exact h.latestFlight _ hflight

end Booked

/-- Every careful step keeps `Booked`. -/
theorem Step.booked (hstep : Step k base True l l') (hok : l.Ok k base) (h : l.Booked) :
    l'.Booked := by
  cases hstep with
  | accept r epoch hkey hfor hlive hactive hstate hbaseline hprimary hepoch =>
    have hb := h.accept r hlive.2.1 hactive hbaseline
    exact ⟨hb.shape, hb.queued, hb.compiling, hb.single, hb.idle, hb.latest, hb.latestFlight⟩
  | reorder requests hperm =>
    refine ⟨h.shape, fun hr t => ?_, h.compiling, ?_, h.idle,
      fun r hr => h.latest r (hperm.mem_iff.mp hr), h.latestFlight⟩
    · simp only [h.queued hr t, hperm.mem_iff]
    · rw [hperm.length_eq]
      exact h.single
  | discard r rest hrequests hunwanted =>
    have hmem : r ∈ l.requests := hrequests ▸ List.mem_cons_self
    have hlive := hok.live (engaged_of_requests hmem)
    exact absurd ((h.queued hlive.retired _).mpr ⟨r, hmem, rfl⟩) (hunwanted hlive.known)
  | begin r rest hrequests hstate =>
    have hmem : r ∈ l.requests := hrequests ▸ List.mem_cons_self
    exact h.begin (hok.live (engaged_of_requests hmem)).retired hrequests
  | rollback r hkey hflight =>
    exact h.rollback (hok.live (engaged_of_flight hflight)).retired hflight
  | fail f state hflight hstate hidle =>
    exact h.land hflight (CompileState.isActive_of_isResting hidle)
  | install f artifact hflight hstate hkey hreferrers hepoch =>
    have hb := h.land hflight (show CompileState.cold.isActive = false from rfl)
    refine ⟨hb.shape, hb.queued, hb.compiling, hb.single, fun hi => ?_, hb.latest, hb.latestFlight⟩
    by_cases ht : Tier.baseline = f.tier
    · dsimp only
      rw [← ht, update_self]
      rfl
    · dsimp only at hi
      rw [update_of_ne ht] at hi
      exact hb.idle hi
  | evict key hkey =>
    refine ⟨h.shape, h.queued, h.compiling, h.single, fun hi => h.idle ?_, h.latest, h.latestFlight⟩
    obtain ⟨key', hkey'⟩ := Option.ne_none_iff_exists'.mp hi
    rw [(installed_of_uninstall hkey').2]
    nofun
  | reject t hcareful =>
    have hb := h.settle (show CompileState.blacklisted.isActive = false from rfl) (hcareful trivial)
    exact ⟨hb.shape, hb.queued, hb.compiling, hb.single, hb.idle, hb.latest, hb.latestFlight⟩
  | demote state hidle hcareful =>
    have hb := h.settle (CompileState.isActive_of_isResting hidle) (hcareful trivial)
    refine ⟨hb.shape, hb.queued, hb.compiling, hb.single, fun hi => hb.idle ?_, hb.latest,
      hb.latestFlight⟩
    dsimp only at hi
    rwa [update_of_ne (by decide)] at hi
  | dropBaseline state hidle hinstalled =>
    have hb := h.settle (t := .baseline) (CompileState.isActive_of_isResting hidle) fun hpending => by
      have hrest := h.idle (Option.isSome_iff_ne_none.mp hinstalled)
      rcases hpending.2 with heq | heq <;> rw [heq] at hrest <;> cases hrest
    refine ⟨hb.shape, hb.queued, hb.compiling, hb.single, fun hi => ?_, hb.latest, hb.latestFlight⟩
    dsimp only at hi
    rw [update_self] at hi
    exact absurd rfl hi
  | retire => exact ⟨h.shape, nofun, nofun, Nat.zero_le _, fun hi => absurd rfl hi, nofun, nofun⟩
  | advance generation hnewer hretired =>
    exact ⟨h.shape, h.queued, h.compiling, h.single, h.idle, h.latest, h.latestFlight⟩
  | shut hretired =>
    -- only an unknown function is shut down unretired, and it has no requests
    have hnone : l.retired = false → l.requests = [] ∧ l.flight = none := fun hr => by
      have hknown : l.known ≠ true := fun hk => by cases hr.symm.trans (hretired hk)
      refine ⟨?_, ?_⟩
      · by_contra hne
        exact hknown (hok.live (.inl hne)).known
      · by_contra hne
        exact hknown (hok.live (.inr (.inl hne))).known
    refine ⟨h.shape, fun hr t => ?_, fun hr t => ?_, Nat.zero_le _, h.idle, nofun, nofun⟩
    · rw [h.queued hr t, (hnone hr).1]
    · rw [h.compiling hr t, (hnone hr).2]
  | reclaim artifacts hkept =>
    exact ⟨h.shape, h.queued, h.compiling, h.single, h.idle, h.latest, h.latestFlight⟩

/-! ## Whole lives -/

theorem Steps.barred (h : Steps k base careful l l') (hb : l.Barred k) : l'.Barred k := by
  induction h with
  | refl => exact hb
  | tail _ hstep ih => exact hstep.barred ih

theorem Steps.ok (h : Steps k base careful l l') (hok : l.Ok k base) : l'.Ok k base := by
  induction h with
  | refl => exact hok
  | tail _ hstep ih => exact hstep.ok ih

theorem Steps.booked (h : Steps k base True l l') (hok : l.Ok k base) (hb : l.Booked) :
    l'.Booked := by
  induction h with
  | refl => exact hb
  | tail hsteps hstep ih => exact hstep.booked (Steps.ok hsteps hok) ih

/-- A barred function has nothing queued, in flight or installed. -/
theorem Ok.not_engaged (h : l.Ok k base) (hb : l.Barred k) : ¬ l.Engaged := fun he =>
  (h.live he).not_barred hb

end Life

end QuickJit
