import FxExchange.Proofs.Rates

/-
# Rates and their versions

However calls of `getRates` come to overlap, and whatever fails: rates have been made by one call
of what the provider answered to it, and their version says by which.  Rates that come out of the
cache were stored less than the time to live before.
-/

namespace FxExchange

open Interleaving Transition

namespace FxService

open Prog (tryCatch throwIf wp_bind wp_command wp_tryCatch wp_throwIf wp_mono)

variable {env : RatesEnv} {s s' : RatesState} {t t' : ℕ} {th th' : RatesThread}
  {l : RatesVisit} {rates rates' : VersionedRates}

/-! ## One call -/

/-- The text of the time of the rates, if there is such a date. -/
def RatesEnv.text (env : RatesEnv) (data : FxRateResponse) : Option String :=
  data.date.map env.toISOString

/-- The call has made these rates of what the provider answered. -/
def Made (env : RatesEnv) (l : RatesVisit) (rates : VersionedRates) : Prop :=
  ∃ data timestamp, l.body = some data ∧ data.result = some "success" ∧
    env.text data = some timestamp ∧ l.version = some rates.version ∧
    rates = { version := rates.version, base := data.base_code, timestamp
              rates := data.conversion_rates }

/-- The call has no rates of its own to return: a command has failed, or the answer of the
provider is not accepted. -/
def Foiled (env : RatesEnv) (l : RatesVisit) : Prop :=
  l.failed = true ∨ ∃ data, l.body = some data ∧
    (data.result ≠ some "success" ∨ env.text data = none)

/-- What `getRates` throws when nothing is known. -/
def noRates : Exn :=
  .internalServerError "FX rates are temporarily unavailable. Please try again later."

/-- A read of Redis that fails throws its own error.  Where it is known that there are last known
rates, they are found. -/
def Plausible (known : Prop) : (c : Cmd) → Except Exn c.Ret → Prop
  | .get _, .error e => e = .unavailable
  | .get .fallback, .ok found => known → found.isSome
  | _, _ => True

/-- A call asks the provider once, draws one id, and stores only what it has made of both. -/
def fetching (env : RatesEnv) (known : Prop) : Discipline Cmd.Ret Exn RatesVisit where
  guard l c := match c with
    | .request => l.body = none
    | .uuid => l.version = none
    | .set key payload exSeconds =>
      Made env l payload ∧ (key = .fresh → exSeconds = some cacheTtlSeconds)
    | .get _ => True
  outcome l c r l' := (∃ s, l' = l.after s c r) ∧ Plausible known c r

/-- What is returned has been found fresh, or made and kept, or it is the last known after a
failure.  Who throws has been failed by Redis, or has found nothing that is known. -/
def Returns (env : RatesEnv) (known : Prop) (l : RatesVisit) : Except Exn VersionedRates → Prop
  | .ok rates => (∃ time, l.hit = some (rates, time)) ∨ (Made env l rates ∧ l.kept = true) ∨
      (l.fallback = some rates ∧ Foiled env l)
  | .error e => (e = .unavailable ∧ l.failed = true) ∨ (¬ known ∧ e = noRates ∧ Foiled env l)

variable {known : Prop}

lemma wp_getFallbackRates (h : Foiled env l) :
    getFallbackRates.wp (fetching env known) (Returns env known) l := by
  unfold getFallbackRates
  refine wp_bind.mpr (wp_command.mpr ⟨trivial, ?_⟩)
  rintro r l' ⟨⟨s, rfl⟩, hread⟩
  cases r with
  | error e => exact .inl ⟨hread, rfl⟩
  | ok found =>
    cases found with
    | none => exact .inr ⟨fun hknown => Bool.noConfusion (hread hknown), rfl, h⟩
    | some rates => exact .inr (.inr ⟨rfl, h⟩)

/-- A call that fails falls back. -/
def Fetches (env : RatesEnv) (known : Prop) : RatesVisit → Except Exn VersionedRates → Prop :=
  Prog.orElse (fetching env known) (Returns env known) fun _ => getFallbackRates

/-- A command on the way to rates of one's own. -/
lemma wp_fetch {c : Cmd} {f : c.Ret → Prog Cmd.Ret Exn VersionedRates}
    (hguard : (fetching env known).guard l c)
    (hok : ∀ s a, (f a).wp (fetching env known) (Fetches env known) (l.after s c (.ok a))) :
    (Prog.command c >>= f).wp (fetching env known) (Fetches env known) l := by
  refine wp_bind.mpr (wp_command.mpr ⟨hguard, ?_⟩)
  rintro r l' ⟨⟨s, rfl⟩, -⟩
  cases r with
  | ok a => exact hok s a
  | error e =>
    refine wp_getFallbackRates (.inl ?_)
    cases c with
    | get key => cases key <;> rfl
    | _ => rfl

lemma wp_fetchAndCacheRates (hbody : l.body = none) (hversion : l.version = none) :
    (fetchAndCacheRates env.toISOString).wp (fetching env known) (Returns env known) l := by
  refine wp_tryCatch.mpr (wp_fetch hbody fun _ (data : FxRateResponse) => ?_)
  refine wp_bind.mpr (wp_throwIf.mpr ⟨fun hresult => ?_, fun hresult => ?_⟩)
  · exact wp_getFallbackRates (.inr ⟨data, rfl, .inl hresult⟩)
  refine wp_fetch hversion fun _ (version : String) => wp_bind.mpr ?_
  unfold timestamp
  split
  · rename_i ms hdate
    have htext : env.text data = some (env.toISOString ms) := by
      rw [RatesEnv.text, hdate, Option.map_some]
    have hmade : Made env { l with body := some data, version := some version }
        ⟨version, data.base_code, env.toISOString ms, data.conversion_rates⟩ :=
      ⟨data, _, rfl, not_not.mp hresult, htext, rfl, rfl⟩
    refine wp_fetch (c := .set .fresh _ _) ⟨hmade, fun _ => rfl⟩ fun _ _ => ?_
    refine wp_fetch (c := .set .fallback _ _) ⟨hmade, fun h => by cases h⟩ fun _ _ => ?_
    exact .inr (.inl ⟨hmade, Bool.or_true _⟩)
  · rename_i hnone
    refine wp_getFallbackRates (.inr ⟨data, rfl, .inr ?_⟩)
    rw [RatesEnv.text, hnone, Option.map_none]

/-- A call from the beginning. -/
lemma wp_getRates :
    (getRates env.toISOString).wp (fetching env known) (Returns env known) {} := by
  refine wp_bind.mpr (wp_command.mpr ⟨trivial, ?_⟩)
  rintro r l' ⟨⟨s, rfl⟩, hread⟩
  cases r with
  | error e => exact .inl ⟨hread, rfl⟩
  | ok found =>
    cases found with
    | none => exact wp_fetchAndCacheRates rfl rfl
    | some rates => exact .inl ⟨s.now, rfl⟩

/-! ## Many calls -/

/-- The answers that commands get are plausible, as far as the last known rates are known. -/
lemma plausible_of_answers {c : Cmd} {e : RatesEvent} {r : Except Exn c.Ret}
    (hknown : known → s.store.caches.fallback.isSome) (h : (ratesServer env).Answers s t c e r) :
    Plausible known c r := by
  cases h with
  | run x =>
    cases c with
    | get key =>
      cases key with
      | fresh => trivial
      | fallback => exact hknown
    | set key payload exSeconds => cases key <;> trivial
    | _ => trivial
  | fail =>
    cases c with
    | get key => rfl
    | _ => trivial

/-- Every call keeps to the discipline, whatever the others do. -/
lemma obeys_of_runs (h : RatesState.Runs env .initial s) :
    Server.Obeys (fetching env False) (Returns env False) s := by
  refine h.invariant (I := Server.Obeys (fetching env False) (Returns env False)) ?_
    fun s e s' _ hobeys _ hstep => hobeys.step (fun _ => wp_getRates) ?_ hstep
  · intro t th hth
    cases hth
  · intro t l c k r _ _ hanswers
    exact ⟨⟨s.store, rfl⟩, plausible_of_answers False.elim hanswers⟩

/-- What a command that may be issued does to the rates that have been made: nothing. -/
lemma Made.after {c : Cmd} (h : Made env l rates) (hguard : (fetching env known).guard l c)
    (store : RatesStore) (r : Except Exn c.Ret) : Made env (l.after store c r) rates := by
  obtain ⟨data, timestamp, hbody, hresult, htext, hversion, hrates⟩ := h
  have hkeep (l' : RatesVisit) (hbody' : l'.body = l.body) (hversion' : l'.version = l.version) :
      Made env l' rates :=
    ⟨data, timestamp, hbody'.trans hbody, hresult, htext, hversion'.trans hversion, hrates⟩
  cases c with
  | get key => cases key <;> cases r <;> exact hkeep _ rfl rfl
  | set key payload exSeconds => cases r <;> exact hkeep _ rfl rfl
  | request =>
    have hnone : l.body = none := hguard
    rw [hnone] at hbody
    cases hbody
  | uuid =>
    have hnone : l.version = none := hguard
    rw [hnone] at hversion
    cases hversion

lemma runs_fresh (h : RatesState.Runs env .initial s) : Server.Fresh s :=
  (Server.fresh_initial _).runs h

/-- Rates that have been made stay made. -/
lemma exists_made_of_runs (h : RatesState.Runs env .initial s) (hrun : RatesState.Runs env s s')
    (hth : s.threads t = some th) (hmade : Made env th.state rates) :
    ∃ th', s'.threads t = some th' ∧ Made env th'.state rates := by
  obtain ⟨th', hth', hkeep⟩ := Server.exists_thread_of_runs
    (B := fun l l' => ∀ rates, Made env l rates → Made env l' rates) (fun _ _ h => h)
    (fun _ _ _ h h' rates hl => h' rates (h rates hl))
    (fun s₁ t₁ l c k r e hrun₁ _ hth₁ _ rates hl =>
      hl.after ((obeys_of_runs (h.trans hrun₁)).guard hth₁) s₁.store r)
    (runs_fresh h) hrun hth
  exact ⟨th', hth', hkeep rates hmade⟩

/-! ### Versions -/

/-- Versions have been drawn, each by one call. -/
structure Versions (env : RatesEnv) (s : RatesState) : Prop where
  drawn : ∀ t th v, s.threads t = some th → th.state.version = some v →
    ∃ n < s.store.drawn, v = env.uuid n
  unique : ∀ t t' th th' v, s.threads t = some th → s.threads t' = some th' →
    th.state.version = some v → th'.state.version = some v → t = t'

/-- At most one call gets a version, and that is the next id. -/
lemma Versions.next (h : Versions env s) (hle : s.store.drawn ≤ s'.store.drawn) (t₁ : ℕ)
    (hthreads : ∀ t th v, s'.threads t = some th → th.state.version = some v →
      (∃ th₀, s.threads t = some th₀ ∧ th₀.state.version = some v) ∨
        (t = t₁ ∧ v = env.uuid s.store.drawn ∧ s.store.drawn < s'.store.drawn)) :
    Versions env s' := by
  -- an id that has been drawn is not the next one
  have hold {t : ℕ} {th : RatesThread} {v : String} (hth : s.threads t = some th)
      (hv : th.state.version = some v) : v ≠ env.uuid s.store.drawn := by
    obtain ⟨n, hn, rfl⟩ := h.drawn t th v hth hv
    exact env.uuid_injective.ne hn.ne
  constructor
  · intro t th v hth hv
    rcases hthreads t th v hth hv with ⟨th₀, hth₀, hv₀⟩ | ⟨-, rfl, hlt⟩
    · obtain ⟨n, hn, heq⟩ := h.drawn t th₀ v hth₀ hv₀
      exact ⟨n, hn.trans_le hle, heq⟩
    · exact ⟨_, hlt, rfl⟩
  · intro t t' th th' v hth hth' hv hv'
    rcases hthreads t th v hth hv with ⟨th₀, hth₀, hv₀⟩ | ⟨rfl, hv₁, -⟩ <;>
      rcases hthreads t' th' v hth' hv' with ⟨th₀', hth₀', hv₀'⟩ | ⟨rfl, hv₁', -⟩
    · exact h.unique t t' th₀ th₀' v hth₀ hth₀' hv₀ hv₀'
    · exact absurd hv₁' (hold hth₀ hv₀)
    · exact absurd hv₁ (hold hth₀' hv₀')
    · rfl

/-- The version of a call after a command: the one of before, or the next id. -/
lemma version_after (env : RatesEnv) (c : Cmd) (x : Weather) (store : RatesStore) (l : RatesVisit) :
    (l.after store c (store.exec env x c).2).version = l.version ∧
        (store.exec env x c).1.drawn = store.drawn ∨
      (l.after store c (store.exec env x c).2).version = some (env.uuid store.drawn) ∧
        (store.exec env x c).1.drawn = store.drawn + 1 := by
  cases c with
  | get key => cases key <;> exact .inl ⟨rfl, rfl⟩
  | set key payload exSeconds =>
    left
    cases key <;> cases hlost : x.lost <;> simp [RatesStore.exec, RatesVisit.after, hlost,
      RatesStore.put]
  | request =>
    left
    cases hanswer : x.answer <;> simp [RatesStore.exec, RatesVisit.after, hanswer]
  | uuid => exact .inr ⟨rfl, rfl⟩

/-- A command that fails has given no version. -/
lemma version_after_error {c : Cmd} (store : RatesStore) (l : RatesVisit) (e : Exn) :
    (l.after store c (.error e)).version = l.version := by
  cases c with
  | get key => cases key <;> rfl
  | _ => rfl

lemma versions_of_runs (h : RatesState.Runs env .initial s) : Versions env s := by
  refine h.invariant (I := Versions env) ⟨?_, ?_⟩ fun s e s' _ hversions _ hstep => ?_
  · intro t th v hth
    cases hth
  · intro t t' th th' v hth
    cases hth
  cases Server.step_of_eq hstep with
  | spawn q =>
    refine hversions.next le_rfl 0 fun t th v hth hv => ?_
    rcases Pool.of_setThread hth with ⟨-, rfl⟩ | ⟨-, hold⟩
    · cases hv
    · exact .inl ⟨th, hold, hv⟩
  | @run t₁ x l c k hth₁ =>
    have hafter := version_after env c x s.store l
    refine hversions.next ?_ t₁ fun t th v hth hv => ?_
    · rcases hafter with ⟨-, hdrawn⟩ | ⟨-, hdrawn⟩
      · exact hdrawn.ge
      · exact (Nat.le_succ _).trans hdrawn.ge
    rcases Pool.of_setThread hth with ⟨rfl, rfl⟩ | ⟨-, hold⟩
    · rcases hafter with ⟨hsame, -⟩ | ⟨hnew, hdrawn⟩
      · exact .inl ⟨_, hth₁, hsame.symm.trans hv⟩
      · refine .inr ⟨rfl, Option.some.inj (hv.symm.trans hnew), ?_⟩
        exact (Nat.lt_succ_self _).trans_le hdrawn.ge
    · exact .inl ⟨th, hold, hv⟩
  | @fail t₁ l c k hth₁ =>
    refine hversions.next le_rfl 0 fun t th v hth hv => ?_
    rcases Pool.of_setThread hth with ⟨rfl, rfl⟩ | ⟨-, hold⟩
    · exact .inl ⟨_, hth₁, (version_after_error s.store l _).symm.trans hv⟩
    · exact .inl ⟨th, hold, hv⟩
  | @crash t₁ l c k hth₁ =>
    refine hversions.next le_rfl 0 fun t th v hth hv => ?_
    rcases Pool.of_setThread hth with ⟨rfl, rfl⟩ | ⟨-, hold⟩
    · exact .inl ⟨_, hth₁, hv⟩
    · exact .inl ⟨th, hold, hv⟩
  | tick ms => exact hversions.next le_rfl 0 fun t th v hth hv => .inl ⟨th, hth, hv⟩

/-! ### Where rates come from -/

/-- A call has made these rates. -/
def Source (env : RatesEnv) (s : RatesState) (rates : VersionedRates) : Prop :=
  ∃ t th, s.threads t = some th ∧ Made env th.state rates

/-- At this time a call was about to store the rates as the fresh ones. -/
def StoredAt (env : RatesEnv) (s : RatesState) (rates : VersionedRates) (time : ℕ) : Prop :=
  ∃ σ t, RatesState.Runs env .initial σ ∧ RatesState.Runs env σ s ∧ σ.store.now = time ∧
    σ.next t = some (.set .fresh rates (some cacheTtlSeconds))

/-- What is stored has been made. -/
lemma StoredAt.source {time : ℕ} (h : StoredAt env s rates time) : Source env s rates := by
  obtain ⟨σ, t, hσ, hrun, -, hnext⟩ := h
  obtain ⟨l, k, hth⟩ := Pool.eq_of_next hnext
  obtain ⟨hmade, -⟩ := (obeys_of_runs hσ).guard hth
  obtain ⟨th', hth', hmade'⟩ := exists_made_of_runs hσ hrun hth hmade
  exact ⟨t, th', hth', hmade'⟩

/-- The caches after a step. -/
lemma caches_step (hobeys : Server.Obeys (fetching env False) (Returns env False) s)
    {e : RatesEvent} (hstep : (ratesServer env).step s e = some s') :
    (∀ rates deadline, s'.store.caches.fresh = some (rates, deadline) →
      s.store.caches.fresh = some (rates, deadline) ∨
        (∃ t, s.next t = some (.set .fresh rates (some cacheTtlSeconds))) ∧
          deadline = s.store.now + 1000 * cacheTtlSeconds) ∧
    ∀ rates, s'.store.caches.fallback = some rates →
      s.store.caches.fallback = some rates ∨ Source env s rates := by
  rcases (Server.step_of_eq hstep).store with hsame | ⟨ms, hwait⟩ | ⟨t, x, l, c, k, -, hth, hexec⟩
  · rw [hsame]
    exact ⟨fun _ _ h => .inl h, fun _ h => .inl h⟩
  · rw [hwait]
    exact ⟨fun _ _ h => .inl h, fun _ h => .inl h⟩
  · rw [hexec]
    have hguard := hobeys.guard hth
    cases c with
    | get key => cases key <;> exact ⟨fun _ _ h => .inl h, fun _ h => .inl h⟩
    | request => exact ⟨fun _ _ h => .inl h, fun _ h => .inl h⟩
    | uuid => exact ⟨fun _ _ h => .inl h, fun _ h => .inl h⟩
    | set key payload exSeconds =>
      obtain ⟨hmade, hseconds⟩ := hguard
      cases key with
      | fresh =>
        obtain rfl := hseconds rfl
        refine ⟨fun rates deadline h => .inr ?_, fun _ h => .inl h⟩
        obtain ⟨rfl, rfl⟩ := Prod.mk.inj (Option.some.inj h)
        exact ⟨⟨t, by rw [Pool.next_eq hth]; rfl⟩, rfl⟩
      | fallback =>
        refine ⟨fun _ _ h => .inl h, fun rates h => .inr ?_⟩
        obtain rfl := Option.some.inj h
        exact ⟨t, _, hth, hmade⟩

lemma now_le_of_step {e : RatesEvent} (hstep : (ratesServer env).step s e = some s') :
    s.store.now ≤ s'.store.now := by
  rcases (Server.step_of_eq hstep).store with hsame | ⟨ms, hwait⟩ | ⟨t, x, l, c, k, -, hth, hexec⟩
  · exact (congrArg RatesStore.now hsame).ge
  · rw [hwait]
    exact Nat.le_add_right _ _
  · rw [hexec]
    cases c with
    | get key => cases key <;> exact le_rfl
    | set key payload exSeconds => cases key <;> exact le_rfl
    | _ => exact le_rfl

/-- What a call has found, after a step. -/
lemma visit_step {e : RatesEvent} (hstep : (ratesServer env).step s e = some s')
    (hth' : s'.threads t = some th') :
    (∀ rates time, th'.state.hit = some (rates, time) →
      (∃ th, s.threads t = some th ∧ th.state.hit = some (rates, time)) ∨
        Custody.live s.store.caches.fresh s.store.now = some rates ∧ time = s.store.now) ∧
    ∀ rates, th'.state.fallback = some rates →
      (∃ th, s.threads t = some th ∧ th.state.fallback = some rates) ∨
        s.store.caches.fallback = some rates := by
  rcases (Server.step_of_eq hstep).thread hth' with ⟨q, -, -, rfl⟩ |
    ⟨th₀, hth₀, hstate, -⟩ | ⟨l, c, k, r, hth₀, hanswer, rfl⟩
  · constructor
    · intro rates time h
      cases h
    · intro rates h
      cases h
  · rw [hstate]
    exact ⟨fun _ _ h => .inl ⟨th₀, hth₀, h⟩, fun _ h => .inl ⟨th₀, hth₀, h⟩⟩
  · have hsame (l' : RatesVisit) (hhit : l'.hit = l.hit) (hfallback : l'.fallback = l.fallback) :
        (∀ rates time, l'.hit = some (rates, time) →
          (∃ th, s.threads t = some th ∧ th.state.hit = some (rates, time)) ∨
            Custody.live s.store.caches.fresh s.store.now = some rates ∧ time = s.store.now) ∧
        ∀ rates, l'.fallback = some rates →
          (∃ th, s.threads t = some th ∧ th.state.fallback = some rates) ∨
            s.store.caches.fallback = some rates :=
      ⟨fun _ _ h => .inl ⟨_, hth₀, hhit.symm.trans h⟩,
        fun _ h => .inl ⟨_, hth₀, hfallback.symm.trans h⟩⟩
    cases c with
    | get key =>
      cases hanswer with
      | run x =>
        cases key with
        | fresh =>
          refine ⟨fun rates time h => .inr ?_, fun _ h => .inl ⟨_, hth₀, h⟩⟩
          obtain ⟨found, hfound, heq⟩ := Option.map_eq_some_iff.mp h
          obtain ⟨rfl, rfl⟩ := Prod.mk.inj heq
          exact ⟨hfound, rfl⟩
        | fallback => exact ⟨fun _ _ h => .inl ⟨_, hth₀, h⟩, fun _ h => .inr h⟩
      | fail => cases key <;> exact hsame _ rfl rfl
    | _ => cases r <;> exact hsame _ rfl rfl

/-- Cached rates have been stored in time, and all rates have been made. -/
structure Sound (env : RatesEnv) (s : RatesState) : Prop where
  fresh : ∀ rates deadline, s.store.caches.fresh = some (rates, deadline) →
    ∃ time ≤ s.store.now, StoredAt env s rates time ∧ deadline = time + 1000 * cacheTtlSeconds
  fallback : ∀ rates, s.store.caches.fallback = some rates → Source env s rates
  hits : ∀ t th rates time, s.threads t = some th → th.state.hit = some (rates, time) →
    ∃ stored ≤ time, StoredAt env s rates stored ∧ time < stored + 1000 * cacheTtlSeconds
  fallbacks : ∀ t th rates, s.threads t = some th → th.state.fallback = some rates →
    Source env s rates

lemma sound_of_runs (h : RatesState.Runs env .initial s) : Sound env s := by
  refine h.invariant (I := Sound env) ⟨?_, ?_, ?_, ?_⟩ fun s e s' hrun hsound _ hstep => ?_
  · intro rates deadline h
    cases h
  · intro rates h
    cases h
  · intro t th rates time hth
    cases hth
  · intro t th rates hth
    cases hth
  have hnext : RatesState.Runs env s s' := Runs.refl.tail trivial hstep
  have hstored {rates : VersionedRates} {time : ℕ} (h : StoredAt env s rates time) :
      StoredAt env s' rates time := by
    obtain ⟨σ, t, hσ, hlater, hfacts⟩ := h
    exact ⟨σ, t, hσ, hlater.trans hnext, hfacts⟩
  have hsource {rates : VersionedRates} (h : Source env s rates) : Source env s' rates := by
    obtain ⟨t, th, hth, hmade⟩ := h
    obtain ⟨th', hth', hmade'⟩ := exists_made_of_runs hrun hnext hth hmade
    exact ⟨t, th', hth', hmade'⟩
  obtain ⟨hfresh, hfallback⟩ := caches_step (obeys_of_runs hrun) hstep
  have hnow : s.store.now ≤ s'.store.now := now_le_of_step hstep
  constructor
  · intro rates deadline h
    rcases hfresh rates deadline h with hold | ⟨⟨t, hset⟩, rfl⟩
    · obtain ⟨time, hle, hat, rfl⟩ := hsound.fresh rates deadline hold
      exact ⟨time, hle.trans hnow, hstored hat, rfl⟩
    · exact ⟨s.store.now, hnow, ⟨s, t, hrun, hnext, rfl, hset⟩, rfl⟩
  · intro rates h
    rcases hfallback rates h with hold | hnew
    · exact hsource (hsound.fallback rates hold)
    · exact hsource hnew
  · intro t th rates time hth hhit
    rcases (visit_step hstep hth).1 rates time hhit with ⟨th₀, hth₀, hold⟩ | ⟨hlive, rfl⟩
    · obtain ⟨stored, hle, hat, hlt⟩ := hsound.hits t th₀ rates time hth₀ hold
      exact ⟨stored, hle, hstored hat, hlt⟩
    · obtain ⟨deadline, hentry, hlt⟩ := Custody.live_eq_some_iff.mp hlive
      obtain ⟨stored, hle, hat, rfl⟩ := hsound.fresh rates deadline hentry
      exact ⟨stored, hle, hstored hat, hlt⟩
  · intro t th rates hth hfound
    rcases (visit_step hstep hth).2 rates hfound with ⟨th₀, hth₀, hold⟩ | hentry
    · exact hsource (hsound.fallbacks t th₀ rates hth₀ hold)
    · exact hsource (hsound.fallback rates hentry)

/-- The rates have been made by a call: by this one, or they were stored less than the time to live
before it found them, or they are the last known where it has been foiled. -/
def Traced (env : RatesEnv) (s : RatesState) (l : RatesVisit) (rates : VersionedRates) : Prop :=
  Source env s rates ∧
    (Made env l rates ∨
      (∃ time stored, l.hit = some (rates, time) ∧ StoredAt env s rates stored ∧
        stored ≤ time ∧ time < stored + 1000 * cacheTtlSeconds) ∨
      (l.fallback = some rates ∧ Foiled env l))

/-- What a call returns is traced. -/
lemma traced_of_answer (h : RatesState.Runs env .initial s) (hth : s.threads t = some th)
    (hanswer : th.answer = some (.ok rates)) : Traced env s th.state rates := by
  have hsound := sound_of_runs h
  have hreturns : Returns env False th.state (.ok rates) :=
    Thread.post_of_answer (obeys_of_runs h t th hth) hanswer
  rcases hreturns with ⟨time, hhit⟩ | ⟨hmade, -⟩ | ⟨hfallback, hfoiled⟩
  · obtain ⟨stored, hle, hat, hlt⟩ := hsound.hits t th rates time hth hhit
    exact ⟨hat.source, .inr (.inl ⟨time, stored, hhit, hat, hle, hlt⟩)⟩
  · exact ⟨⟨t, th, hth, hmade⟩, .inl hmade⟩
  · exact ⟨hsound.fallbacks t th rates hth hfallback, .inr (.inr ⟨hfallback, hfoiled⟩)⟩

/-- Whoever gets rates gets what one call has made of an answer of the provider: its own, one that
was stored less than the time to live before it was found, or, where its own attempt was foiled,
the last known.  Rates of one version are the same. -/
theorem rates_traced (h : RatesState.Runs env .initial s) :
    (∀ t th rates, s.threads t = some th → th.answer = some (.ok rates) →
      Traced env s th.state rates) ∧
    ∀ rates rates', Source env s rates → Source env s rates' →
      rates.version = rates'.version → rates = rates' := by
  refine ⟨fun t th rates hth hanswer => traced_of_answer h hth hanswer, ?_⟩
  rintro rates rates' ⟨t, th, hth, data, text, hbody, -, htext, hversion, hrates⟩
    ⟨t', th', hth', data', text', hbody', -, htext', hversion', hrates'⟩ hsame
  obtain rfl := (versions_of_runs h).unique t t' th th' rates.version hth hth' hversion
    (hsame ▸ hversion')
  obtain rfl := Option.some.inj (hth.symm.trans hth')
  obtain rfl := Option.some.inj (hbody.symm.trans hbody')
  obtain rfl := Option.some.inj (htext.symm.trans htext')
  rw [hrates, hrates', hsame]

/-- The ids are texts of growing length. -/
def counted : RatesEnv where
  toISOString := lastUpdate
  uuid n := String.ofList (List.replicate n 'v')
  uuid_injective m n h := by simpa using congrArg String.length h

/-- What the provider answers, and Redis does not fail. -/
def fair : Weather where
  answer := .ok
    { result := some "success", base_code := "NGN"
      time_last_update_unix := .number (some 1742169600)
      conversion_rates := parTable }

/-- The first call stores its rates, a second one finds them a minute later. -/
theorem rates_traced_cached : ∃ s th rates, RatesState.Runs counted .initial s ∧
    s.threads 1 = some th ∧ th.answer = some (.ok rates) ∧ Source counted s rates := by
  have hplay : (runAll (ratesServer counted).step anyStep RatesState.initial
      (.spawn () :: List.replicate 5 (.run 0 fair) ++ [.tick 60000, .spawn (), .run 1 fair])).any
      (fun s => (s.threads 1).any fun th => th.answer.any Except.isOk) = true := by
    decide +kernel
  obtain ⟨s, hrun, hs⟩ := exists_of_runAll hplay
  simp only [Option.any_eq_true] at hs
  obtain ⟨th, hth, r, hr, hok⟩ := hs
  cases r with
  | error e => cases hok
  | ok rates => exact ⟨s, th, rates, hrun, hth, hr, ((rates_traced hrun).1 1 th rates hth hr).1⟩

/-! ### Whether there are any -/

/-- The call has stored rates as the last known ones, or found some. -/
def RatesVisit.Knows (l : RatesVisit) : Prop := l.kept = true ∨ l.fallback.isSome = true

/-- The last known rates stay known. -/
lemma isSome_fallback_step {e : RatesEvent} (hknown : s.store.caches.fallback.isSome)
    (hstep : (ratesServer env).step s e = some s') : s'.store.caches.fallback.isSome := by
  rcases (Server.step_of_eq hstep).store with hsame | ⟨ms, hwait⟩ | ⟨t, x, l, c, k, -, hth, hexec⟩
  · exact hsame ▸ hknown
  · exact hwait ▸ hknown
  · rw [hexec]
    cases c with
    | get key => cases key <;> exact hknown
    | set key payload exSeconds =>
      cases key with
      | fresh => exact hknown
      | fallback => rfl
    | _ => exact hknown

/-- A command by which a call gets to know rates leaves them known to all. -/
lemma isSome_fallback_of_knows {c : Cmd} {x : Weather} {store : RatesStore}
    (hold : l.Knows → store.caches.fallback.isSome)
    (h : (l.after store c (store.exec env x c).2).Knows) :
    (store.exec env x c).1.caches.fallback.isSome := by
  cases c with
  | get key =>
    cases key with
    | fresh => exact hold h
    | fallback =>
      rcases h with hkept | hfound
      · exact hold (.inl hkept)
      · exact hfound
  | set key payload exSeconds =>
    cases key with
    | fallback => rfl
    | fresh =>
      refine hold ?_
      cases hlost : x.lost <;>
        simpa [RatesStore.exec, RatesVisit.after, RatesVisit.Knows, hlost] using h
  | request =>
    refine hold ?_
    cases hanswer : x.answer <;>
      simpa [RatesStore.exec, RatesVisit.after, RatesVisit.Knows, hanswer] using h
  | uuid => exact hold h

lemma knows_after_error {c : Cmd} {store : RatesStore} {e : Exn}
    (h : (l.after store c (.error e)).Knows) : l.Knows := by
  cases c with
  | get key => cases key <;> exact h
  | _ => exact h

lemma isSome_fallback_of_runs (h : RatesState.Runs env .initial s) (hth : s.threads t = some th)
    (hknows : th.state.Knows) : s.store.caches.fallback.isSome := by
  revert t th
  refine h.invariant (I := fun s => ∀ {t th}, s.threads t = some th → th.state.Knows →
    s.store.caches.fallback.isSome) ?_ fun s e s' _ hI _ hstep t th hth hknows => ?_
  · intro t th hth
    cases hth
  have hkept {t : ℕ} {th : RatesThread} (hold : s.threads t = some th) (hknows : th.state.Knows) :
      s'.store.caches.fallback.isSome := isSome_fallback_step (hI hold hknows) hstep
  cases Server.step_of_eq hstep with
  | spawn q =>
    rcases Pool.of_setThread hth with ⟨-, rfl⟩ | ⟨-, hold⟩
    · rcases hknows with h | h <;> cases h
    · exact hkept hold hknows
  | run x hth₁ =>
    rcases Pool.of_setThread hth with ⟨rfl, rfl⟩ | ⟨-, hold⟩
    · exact isSome_fallback_of_knows (fun hknows => hI hth₁ hknows) hknows
    · exact hkept hold hknows
  | fail hth₁ =>
    rcases Pool.of_setThread hth with ⟨rfl, rfl⟩ | ⟨-, hold⟩
    · exact hkept hth₁ (knows_after_error hknows)
    · exact hkept hold hknows
  | crash hth₁ =>
    rcases Pool.of_setThread hth with ⟨rfl, rfl⟩ | ⟨-, hold⟩
    · exact hkept hth₁ hknows
    · exact hkept hold hknows
  | tick ms => exact hkept hth hknows

/-- Once a call has returned rates that were not just found fresh, every call that begins later
gets rates, whatever the provider does, unless Redis fails it. -/
theorem rates_last (h : RatesState.Runs env .initial s) (hth : s.threads t = some th)
    (hanswer : th.answer = some (.ok rates)) (hhit : th.state.hit = none)
    (hrun : RatesState.Runs env s s') {n : ℕ} (hn : s.seq ≤ n) (hth' : s'.threads n = some th')
    {e : Exn} (he : th'.answer = some (.error e)) : e = .unavailable ∧ th'.state.failed = true := by
  have hreturns : Returns env False th.state (.ok rates) :=
    Thread.post_of_answer (obeys_of_runs h t th hth) hanswer
  have hknows : th.state.Knows := by
    rcases hreturns with ⟨time, hfresh⟩ | ⟨-, hkept⟩ | ⟨hfallback, -⟩
    · rw [hhit] at hfresh
      cases hfresh
    · exact .inl hkept
    · exact .inr (by rw [hfallback]; rfl)
  have hlater {σ : RatesState} (hσ : RatesState.Runs env s σ) : σ.store.caches.fallback.isSome :=
    hσ.invariant (I := fun σ => σ.store.caches.fallback.isSome)
      (isSome_fallback_of_runs h hth hknows)
      fun _ _ _ _ hknown _ hstep => isSome_fallback_step hknown hstep
  have hwp := Server.wp_of_begun (D := fetching env True) (P := Returns env True) (runs_fresh h)
    (fun _ => wp_getRates)
    (fun σ n l c k r e hσ _ hanswers =>
      ⟨⟨σ.store, rfl⟩, plausible_of_answers (fun _ => hlater hσ) hanswers⟩) hrun hn hth'
  have hthrows : Returns env True th'.state (.error e) := Thread.post_of_answer hwp he
  rcases hthrows with hfailed | ⟨hunknown, -⟩
  · exact hfailed
  · exact absurd trivial hunknown

/-- When the rates have expired the provider is not available, and the last known ones cannot be
read. -/
theorem rates_last_failed : ∃ s s' th rates th' e, RatesState.Runs counted .initial s ∧
    s.threads 0 = some th ∧ th.answer = some (.ok rates) ∧ RatesState.Runs counted s s' ∧
    s'.threads 1 = some th' ∧ th'.answer = some (.error e) ∧ e = .unavailable := by
  have hplay : (runAll (ratesServer counted).step anyStep RatesState.initial
      (.spawn () :: List.replicate 5 (.run 0 fair))).any
      (fun s => s.seq = 1 ∧ ((s.threads 0).any fun th => th.answer.any Except.isOk ∧
        th.state.hit.isNone) ∧
        (runAll (ratesServer counted).step anyStep s
          [.tick 90000, .spawn (), .run 1 fair, .fail 1, .fail 1]).any
          fun s' => (s'.threads 1).any fun th => th.answer.any fun r => !r.isOk) = true := by
    decide +kernel
  obtain ⟨s, hrun, hs⟩ := exists_of_runAll hplay
  obtain ⟨hseq, hfirst, hlater⟩ := of_decide_eq_true hs
  obtain ⟨th, hth, hth₁⟩ := (Option.any_eq_true ..).mp hfirst
  obtain ⟨hok, hhit⟩ := of_decide_eq_true hth₁
  obtain ⟨s', hrun', hs'⟩ := exists_of_runAll hlater
  simp only [Option.any_eq_true] at hok hs'
  obtain ⟨r, hr, hok⟩ := hok
  obtain ⟨th', hth', r', hr', herror⟩ := hs'
  cases r with
  | error e => cases hok
  | ok rates =>
    cases r' with
    | ok rates' => cases herror
    | error e =>
      have hfailed :=
        rates_last hrun hth hr (Option.isNone_iff_eq_none.mp hhit) hrun' hseq.le hth' hr'
      exact ⟨s, s', th, rates, th', e, hrun, hth, hr, hrun', hth', hr', hfailed.1⟩

end FxService

end FxExchange
