/-
Finbar.IndicatorJobs.ReuseTheorems — when a reused artifact holds the bars
that the job would compute.

The content hash covers the request but not the stores. `freshRun_congr` says
what the bars depend on besides the hashed payload: the rows that the job
reads of the stores, and what its definition is parsed to where the order of
keys, which the payload forgets, makes a difference. In every run in which a
job that finds an artifact reads what the artifact's job read, a reused
artifact is what a fresh computation yields (`reuse_is_fresh_of_unchanged`).

No `sorry`, no `axiom`.
-/
import Finbar.IndicatorJobs.Runner
import Finbar.Lib.Steps

namespace Finbar.IndicatorJobs

open Lib Lib.Python Finbar.Parser Finbar.Parity

variable {F H : Type} {deps : RunnerDeps F H}

/-! ## §1 Readings -/

/-- What the causal enrichment of a job takes from its definition and reads of
the cache. -/
structure CausalReadings where
  timeframes : Option TimeframeDeclaration := none
  primaryIndicators : List String
  informativeIndicators : OrderedDict String (List String) := {}
  informativeBars : List (List PriceBar) := []

/-- What a job reads of the stores, and takes from its parsed definition where
the payload does not determine it. -/
structure Readings where
  bars : List PriceBar
  features : List FeatureSpec
  causal : Option CausalReadings
  derivatives : List DerivativesRow

def causalReadings (stores : Stores) (job : IndicatorJob) (accepted : AcceptedStrategy) :
    CausalReadings :=
  let required := informativeRequiredIndicators accepted.definition.indicators
  if job.timeframeAlias = "primary" then
    { timeframes := accepted.definition.timeframes
      primaryIndicators := accepted.primaryRequiredIndicators
      informativeIndicators := required
      informativeBars :=
        (informativeTimeframes accepted.definition).map (loadInformative stores job) }
  else { primaryIndicators := (required.get job.timeframeAlias).getD [] }

/-- The causal readings of a job that is enriched causally. -/
def causalPart (stores : Stores) (job : IndicatorJob) (validation : Option AcceptedStrategy) :
    Option CausalReadings :=
  (validation.filter fun _ => decide (job.enrichment = "live_parity_streaming")).map
    (causalReadings stores job)

/-- The readings of a job whose indicators are resolved. -/
def resolvedReadings (deps : RunnerDeps F H) (stores : Stores) (job : IndicatorJob)
    (indicators : List String) (validation : Option AcceptedStrategy) : Readings where
  bars := loadCachedBars stores job
  features := appliedFeatures job validation
  causal := causalPart stores job validation
  derivatives :=
    if derivativesMerged deps indicators = true ∧ (causalPart stores job validation).isNone then
      findDerivatives stores.derivatives job.symbol
    else []

/-- The readings of a job, if its indicators can be resolved. -/
def readings (deps : RunnerDeps F H) (stores : Stores) (job : IndicatorJob) : Option Readings :=
  match resolveIndicators deps job with
  | .error _ => none
  | .ok (indicators, validation) =>
      some (resolvedReadings deps stores job indicators validation)

/-! ## §2 What the bars depend on -/

section Congruence

variable {stores stores' : Stores} {job job' : IndicatorJob} {bars : List BarDict}

theorem foldlM_congr {m : Type → Type} [Monad m] {α β : Type} {f g : β → α → m β}
    {items : List α} (h : ∀ item ∈ items, ∀ b, f b item = g b item) (b : β) :
    items.foldlM f b = items.foldlM g b := by
  induction items generalizing b with
  | nil => rfl
  | cons item items ih =>
      rw [List.foldlM_cons, List.foldlM_cons, h item List.mem_cons_self b]
      exact congrArg (g b item >>= ·)
        (funext fun b => ih (fun other hother => h other (List.mem_cons_of_mem _ hother)) b)

/-- The causal enrichment depends on the causal readings. -/
theorem applyCausalEnrichment_congr {accepted accepted' : AcceptedStrategy}
    (halias : job.timeframeAlias = job'.timeframeAlias) (hinterval : job.interval = job'.interval)
    (h : causalReadings stores job accepted = causalReadings stores' job' accepted') :
    applyCausalEnrichment deps stores job bars accepted =
      applyCausalEnrichment deps stores' job' bars accepted' := by
  unfold causalReadings at h
  unfold applyCausalEnrichment
  rw [← halias] at h ⊢
  by_cases hprimary : job.timeframeAlias = "primary"
  · simp only [hprimary, if_true, CausalReadings.mk.injEq] at h
    obtain ⟨htimeframes, hprimaryIndicators, hinformative, hbars⟩ := h
    have hitems : informativeTimeframes accepted.definition =
        informativeTimeframes accepted'.definition := by
      unfold informativeTimeframes
      rw [htimeframes]
    rw [hitems] at hbars
    have hfold : (informativeTimeframes accepted'.definition).foldlM
          (addInformativeBars stores job) ({} : OrderedDict String (List BarDict)) =
        (informativeTimeframes accepted'.definition).foldlM
          (addInformativeBars stores' job') ({} : OrderedDict String (List BarDict)) := by
      refine foldlM_congr (fun item hitem loaded => ?_) _
      unfold addInformativeBars
      rw [List.map_inj_left.mp hbars item hitem]
    simp only [hprimary, ne_eq, not_true_eq_false, if_false, hitems, hfold, htimeframes,
      hprimaryIndicators, hinformative]
  · simp only [hprimary, if_false, CausalReadings.mk.injEq, true_and, and_true] at h
    simp only [hprimary, ne_eq, not_false_eq_true, if_true, h, hinterval]

/-- The batch calculation depends on the set of indicators and on the
derivatives rows, where they are merged. -/
theorem applyIndicators_congr {indicators indicators' : List String}
    (hperm : indicators.Perm indicators') (hinterval : job.interval = job'.interval)
    (hmerged : derivativesMerged deps indicators = derivativesMerged deps indicators')
    (hderivatives : derivativesMerged deps indicators = true →
      findDerivatives stores.derivatives job.symbol =
        findDerivatives stores'.derivatives job'.symbol) :
    applyIndicators deps stores job bars indicators =
      applyIndicators deps stores' job' bars indicators' := by
  have hempty : indicators.isEmpty = indicators'.isEmpty := by
    rw [Bool.eq_iff_iff, List.isEmpty_iff_length_eq_zero, List.isEmpty_iff_length_eq_zero,
      hperm.length_eq]
  have hset : indicators.toFinset = indicators'.toFinset := List.toFinset_eq_of_perm _ _ hperm
  have hmerge (frame : F) : mergeDerivativesIfNeeded deps stores job frame indicators =
      mergeDerivativesIfNeeded deps stores' job' frame indicators' := by
    unfold mergeDerivativesIfNeeded
    rw [← hmerged]
    cases hneeded : derivativesMerged deps indicators with
    | false => rfl
    | true => rw [hderivatives hneeded, hinterval]
  unfold applyIndicators
  rw [hempty, hset]
  simp only [hmerge]

/-- A job without causal readings is enriched in batch. -/
theorem enrichedBars_batch {indicators : List String} {validation : Option AcceptedStrategy}
    (h : causalPart stores job validation = none) :
    enrichedBars deps stores job bars indicators validation = (do
      let (bars, frame) ← applyIndicators deps stores job bars indicators
      applyFeatures deps (appliedFeatures job validation) bars frame) := by
  unfold enrichedBars
  cases validation with
  | none => rfl
  | some accepted =>
      by_cases hlive : job.enrichment = "live_parity_streaming"
      · simp [causalPart, hlive] at h
      · simp only [hlive, if_false]

/-- A job with causal readings is enriched causally. -/
theorem enrichedBars_causal (deps : RunnerDeps F H) (bars : List BarDict)
    (indicators : List String) {validation : Option AcceptedStrategy} {causal : CausalReadings}
    (h : causalPart stores job validation = some causal) :
    ∃ accepted, causalReadings stores job accepted = causal ∧
      enrichedBars deps stores job bars indicators validation = (do
        let (bars, frame) ← applyCausalEnrichment deps stores job bars accepted
        applyFeatures deps (appliedFeatures job validation) bars frame) := by
  cases validation with
  | none => cases h
  | some accepted =>
      by_cases hlive : job.enrichment = "live_parity_streaming"
      · refine ⟨accepted, by simpa [causalPart, hlive] using h, ?_⟩
        unfold enrichedBars
        simp only [hlive, if_true]
      · simp [causalPart, hlive] at h

/-- **The enriched bars depend on the payload and the readings.** -/
theorem enrichedBars_congr {indicators indicators' : List String}
    {validation validation' : Option AcceptedStrategy}
    (hpayload : contentPayload deps job indicators validation =
      contentPayload deps job' indicators' validation')
    (hreadings : resolvedReadings deps stores job indicators validation =
      resolvedReadings deps stores' job' indicators' validation') :
    enrichedBars deps stores job bars indicators validation =
      enrichedBars deps stores' job' bars indicators' validation' := by
  have halias : job.timeframeAlias = job'.timeframeAlias :=
    congrArg ContentPayload.timeframeAlias hpayload
  have hinterval : job.interval = job'.interval := congrArg ContentPayload.interval hpayload
  have hmode : job.enrichment = job'.enrichment := congrArg ContentPayload.enrichmentMode hpayload
  have hmerged : derivativesMerged deps indicators = derivativesMerged deps indicators' :=
    congrArg ContentPayload.derivativesMerged hpayload
  have hperm : indicators.Perm indicators' := by
    have hsorted : indicators.insertionSort (· ≤ ·) = indicators'.insertionSort (· ≤ ·) :=
      congrArg ContentPayload.indicators hpayload
    exact (List.perm_insertionSort _ indicators).symm.trans
      (hsorted ▸ List.perm_insertionSort _ indicators')
  have hfeatures : appliedFeatures job validation = appliedFeatures job' validation' :=
    congrArg Readings.features hreadings
  have hcausal : causalPart stores job validation = causalPart stores' job' validation' :=
    congrArg Readings.causal hreadings
  cases hpart : causalPart stores job validation with
  | some causal =>
      have hpart' : causalPart stores' job' validation' = some causal := hcausal.symm.trans hpart
      obtain ⟨accepted, hread, hbars⟩ := enrichedBars_causal deps bars indicators hpart
      obtain ⟨accepted', hread', hbars'⟩ := enrichedBars_causal deps bars indicators' hpart'
      rw [hbars, hbars', hfeatures,
        applyCausalEnrichment_congr halias hinterval (hread.trans hread'.symm)]
  | none =>
      have hpart' : causalPart stores' job' validation' = none := hcausal.symm.trans hpart
      have hderivatives := congrArg Readings.derivatives hreadings
      simp only [resolvedReadings, hpart, hpart', Option.isNone_none, and_true] at hderivatives
      rw [enrichedBars_batch hpart, enrichedBars_batch hpart', hfeatures,
        applyIndicators_congr hperm hinterval hmerged fun hneeded => ?_]
      rwa [if_pos hneeded, if_pos (hmerged ▸ hneeded)] at hderivatives

/-! ## §3 Fresh runs -/

variable [DecidableEq H]

/-- The artifact of a job: its bars are those of a fresh run, under the hash of
that run. -/
def Artifact.Genuine (deps : RunnerDeps F H) (artifact : Artifact H) : Prop :=
  ∃ result, freshRun deps artifact.stores artifact.job = .ok result ∧
    result.bars = artifact.bars ∧ result.contentHash = artifact.contentHash

/-- Without artifacts a job computes its bars. -/
theorem freshRun_eq {indicators : List String} {validation : Option AcceptedStrategy}
    (hresolve : resolveIndicators deps job = .ok (indicators, validation))
    (hbars : loadCachedBars stores job ≠ []) :
    freshRun deps stores job =
      (enrichedBars deps stores job ((loadCachedBars stores job).map barToDict) indicators
        validation).map fun enriched =>
          { bars := enriched
            contentHash := computeContentHash deps job indicators validation
            reused := false } := by
  have hnone (hash : H) : ({ stores := stores } : Library H).tryReuseArtifact hash = none := by
    rfl
  have hempty : ((loadCachedBars stores job).map barToDict).isEmpty = false := by
    simpa using hbars
  unfold freshRun syncRun
  simp only [hempty, hresolve, hnone, Bool.false_eq_true, if_false]
  rfl

/-- How a job comes to complete. -/
theorem syncRun_cases {library : Library H} {result : JobResult H}
    (h : syncRun deps library job = .ok result) :
    loadCachedBars library.stores job ≠ [] ∧ ∃ indicators validation,
      resolveIndicators deps job = .ok (indicators, validation) ∧
      result.contentHash = computeContentHash deps job indicators validation ∧
      ((result.reused = true ∧
          library.tryReuseArtifact result.contentHash = some result.bars) ∨
        freshRun deps library.stores job = .ok result) := by
  have hbars : loadCachedBars library.stores job ≠ [] := by
    intro hnil
    simp [syncRun, hnil, bind, Except.bind, throw, throwThe, MonadExceptOf.throw] at h
  have hempty : ((loadCachedBars library.stores job).map barToDict).isEmpty = false := by
    simpa using hbars
  refine ⟨hbars, ?_⟩
  cases hresolve : resolveIndicators deps job with
  | error e =>
      rw [syncRun, hempty, hresolve] at h
      cases h
  | ok resolved =>
      obtain ⟨indicators, validation⟩ := resolved
      refine ⟨indicators, validation, rfl, ?_⟩
      rw [freshRun_eq hresolve hbars]
      rw [syncRun, hempty, hresolve] at h
      simp only [Bool.false_eq_true, if_false, bind, Except.bind] at h
      cases hreuse : library.tryReuseArtifact
          (computeContentHash deps job indicators validation) with
      | some existing =>
          simp only [hreuse, pure, Except.pure, Except.ok.injEq] at h
          subst h
          exact ⟨rfl, .inl ⟨rfl, hreuse⟩⟩
      | none =>
          simp only [hreuse] at h
          cases henriched : enrichedBars deps library.stores job
              ((loadCachedBars library.stores job).map barToDict) indicators validation with
          | error e =>
              rw [henriched] at h
              cases h
          | ok enriched =>
              rw [henriched] at h
              simp only [pure, Except.pure, Except.ok.injEq] at h
              subst h
              exact ⟨rfl, .inr rfl⟩

/-- **Two jobs with the same hash and the same readings** compute the same
bars. -/
theorem freshRun_congr {indicators indicators' : List String}
    {validation validation' : Option AcceptedStrategy}
    (hresolve : resolveIndicators deps job = .ok (indicators, validation))
    (hresolve' : resolveIndicators deps job' = .ok (indicators', validation'))
    (hbars : loadCachedBars stores job ≠ [])
    (hhash : computeContentHash deps job indicators validation =
      computeContentHash deps job' indicators' validation')
    (hreadings : readings deps stores job = readings deps stores' job') :
    freshRun deps stores job = freshRun deps stores' job' := by
  have hpayload := deps.sha256_injective hhash
  have hresolved : resolvedReadings deps stores job indicators validation =
      resolvedReadings deps stores' job' indicators' validation' := by
    simpa [readings, hresolve, hresolve'] using hreadings
  have hloaded : loadCachedBars stores job = loadCachedBars stores' job' :=
    congrArg Readings.bars hresolved
  have hbars' : loadCachedBars stores' job' ≠ [] := hloaded ▸ hbars
  rw [freshRun_eq hresolve hbars, freshRun_eq hresolve' hbars', hloaded, hhash,
    enrichedBars_congr hpayload hresolved]

end Congruence

/-! ## §4 Runs -/

variable [DecidableEq H] {library : Library H} {job : IndicatorJob} {result : JobResult H}

/-- A job that finds an artifact reads what the artifact's job read. -/
def Library.Unchanged (deps : RunnerDeps F H) (library : Library H) : Action → Prop
  | .change _ => True
  | .run _ job =>
      ∀ indicators validation, resolveIndicators deps job = .ok (indicators, validation) →
        ∀ jobId artifact,
          library.findByHash (computeContentHash deps job indicators validation) = some jobId →
          library.artifacts.get jobId = some artifact →
          readings deps library.stores job = readings deps artifact.stores artifact.job

/-- The artifact behind the bars that are reused. -/
theorem artifact_of_tryReuse {contentHash : H} {bars : List BarDict}
    (h : library.tryReuseArtifact contentHash = some bars) :
    ∃ jobId artifact, library.findByHash contentHash = some jobId ∧
      library.artifacts.get jobId = some artifact ∧ artifact.contentHash = contentHash ∧
      artifact.bars = bars := by
  unfold Library.tryReuseArtifact at h
  obtain ⟨hfound, -⟩ := Option.filter_eq_some_iff.mp h
  obtain ⟨jobId, hid, hget⟩ := Option.bind_eq_some_iff.mp hfound
  obtain ⟨artifact, hartifact, hbars⟩ := Option.map_eq_some_iff.mp hget
  refine ⟨jobId, artifact, hid, hartifact, ?_, hbars⟩
  obtain ⟨entry, hentry, rfl⟩ := Option.map_eq_some_iff.mp hid
  have hsame : library.artifacts.get entry.1 = some entry.2 :=
    OrderedDict.get_of_mem (List.mem_of_find?_eq_some hentry)
  rw [hsame] at hartifact
  have hhash := List.find?_some hentry
  rw [decide_eq_true_iff] at hhash
  rw [← Option.some.inj hartifact]
  exact hhash.1

/-- **A job whose readings are unchanged** completes with the bars of a fresh
run, whether it reuses an artifact or not. -/
theorem fresh_of_syncRun (hgenuine : library.artifacts.Forall (Artifact.Genuine deps))
    {jobId : String} (hunchanged : library.Unchanged deps (.run jobId job))
    (h : syncRun deps library job = .ok result) :
    ∃ fresh, freshRun deps library.stores job = .ok fresh ∧ fresh.bars = result.bars ∧
      fresh.contentHash = result.contentHash := by
  obtain ⟨hbars, indicators, validation, hresolve, hhash, ⟨-, hreuse⟩ | hfresh⟩ := syncRun_cases h
  · obtain ⟨foundId, artifact, hfound, hget, hsame, hkept⟩ := artifact_of_tryReuse hreuse
    obtain ⟨stored, hstored, hstoredBars, hstoredHash⟩ := hgenuine foundId artifact hget
    obtain ⟨-, indicators', validation', hresolve', hhash', -⟩ := syncRun_cases hstored
    have hreadings := hunchanged indicators validation hresolve foundId artifact
      (hhash ▸ hfound) hget
    have hequal : computeContentHash deps job indicators validation =
        computeContentHash deps artifact.job indicators' validation' := by
      rw [← hhash, ← hhash', hstoredHash, hsame]
    refine ⟨stored, ?_, hstoredBars.trans hkept, hstoredHash.trans hsame⟩
    rw [freshRun_congr hresolve hresolve' hbars hequal hreadings]
    exact hstored
  · exact ⟨result, hfresh, rfl, rfl⟩

/-- A step along the condition stores genuine artifacts only. -/
theorem genuine_step {action : Action}
    (hgenuine : library.artifacts.Forall (Artifact.Genuine deps))
    (hunchanged : library.Unchanged deps action) :
    (library.step deps action).artifacts.Forall (Artifact.Genuine deps) := by
  cases action with
  | change stores => exact hgenuine
  | run jobId job =>
      simp only [Library.step]
      split
      · exact hgenuine
      next result hrun =>
          obtain ⟨fresh, hfresh, hbars, hhash⟩ := fresh_of_syncRun hgenuine hunchanged hrun
          have hnew : Artifact.Genuine deps
              { contentHash := result.contentHash
                bars := result.bars
                job := job
                stores := library.stores } := ⟨fresh, hfresh, hbars, hhash⟩
          exact hgenuine.assign hnew jobId

/-- **A job that completes stores fresh bars**, whether it reuses an artifact
or not, in every run in which each job that finds an artifact reads what the
artifact's job read. -/
theorem reuse_is_fresh_of_unchanged {stores : Stores} {before : List Action} {jobId : String}
    (h : Steps.Along (Library.step deps) (Library.Unchanged deps) { stores := stores }
      (before ++ [.run jobId job]))
    (hrun : syncRun deps (Steps.run (Library.step deps) { stores := stores } before) job =
      .ok result) :
    ∃ fresh,
      freshRun deps (Steps.run (Library.step deps) { stores := stores } before).stores job =
        .ok fresh ∧ fresh.bars = result.bars := by
  obtain ⟨hbefore, hlast⟩ := h.of_append
  have hgenuine := Steps.Along.invariant
    (I := fun library : Library H => library.artifacts.Forall (Artifact.Genuine deps))
    (fun library action hgenuine hunchanged => genuine_step hgenuine hunchanged) hbefore
    OrderedDict.forall_empty
  obtain ⟨fresh, hfresh, hbars, -⟩ := fresh_of_syncRun hgenuine hlast.1 hrun
  exact ⟨fresh, hfresh, hbars⟩

/-! ## §5 A change of the cache -/

/-- A runner over frames that are lists of bars, without derivatives, under a
hash that tells all payloads apart. -/
def plainRunner : RunnerDeps (List BarDict) ContentPayload where
  parser := smallEnvironment
  load _ := .error []
  barsToFrame := .ok
  frameToBars := .ok
  calculate frame _ := .ok frame
  calculateFeatures frame _ := .ok frame
  causalEnrich input := .ok input.primaryBars
  mergeDerivatives frame _ _ := .ok frame
  hasDerivatives := false
  sha256 := id
  sha256_injective := Function.injective_id

/-- A job that asks for the bars without any indicator. -/
def plainJob : IndicatorJob where
  symbol := "BTC"
  source := "yfinance"
  interval := "1d"

/-- A cache with one bar. -/
def oneBar (price : ℚ) : Stores where
  prices := [{ symbol := "BTC", source := "yfinance", interval := "1d", timestamp := "2024-01-01"
               openPrice := price, high := price, low := price, close := price, volume := 1 }]

/-- The close of the one bar that a job stores. -/
def storedClose {H : Type} : Except Message (JobResult H) → Option PyValue
  | .ok { bars := [bar], .. } => bar.get "close"
  | _ => none

/-- The first job has stored its artifact. -/
def afterFirst : Library ContentPayload :=
  Library.step plainRunner { stores := oneBar 1 } (.run "first" plainJob)

/-- While the bar stays, a second job reuses the artifact, rightly. -/
theorem reuse_is_fresh_unchanged_bar :
    ∃ result, syncRun plainRunner afterFirst plainJob = .ok result ∧ result.reused = true ∧
      ∃ fresh, freshRun plainRunner (oneBar 1) plainJob = .ok fresh ∧ fresh.bars = result.bars := by
  refine ⟨_, rfl, rfl, ?_⟩
  have halong : Steps.Along (Library.step plainRunner) (Library.Unchanged plainRunner)
      { stores := oneBar 1 } ([.run "first" plainJob] ++ [.run "second" plainJob]) := by
    refine ⟨?_, ?_, trivial⟩
    · intro indicators validation hresolve jobId artifact hfound
      cases hfound
    · intro indicators validation hresolve jobId artifact hfound hget
      cases hresolve
      cases hfound
      cases hget
      rfl
  exact reuse_is_fresh_of_unchanged halong rfl

/-- **A stale artifact is reused**: the bar was fetched again at another price,
and the second job stores the old one. -/
theorem stale_artifact_reused :
    let library := afterFirst.step plainRunner (.change (oneBar 2))
    (∃ result, syncRun plainRunner library plainJob = .ok result ∧ result.reused = true) ∧
      storedClose (syncRun plainRunner library plainJob) = some (.ofRat 1) ∧
      storedClose (freshRun plainRunner library.stores plainJob) = some (.ofRat 2) :=
  ⟨⟨_, rfl, rfl⟩, rfl, rfl⟩

end Finbar.IndicatorJobs
