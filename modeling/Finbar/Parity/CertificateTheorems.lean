/-
Finbar.Parity.CertificateTheorems — which results in `batch_full_frame` mode
are rightly annotated as live-parity safe.

The verdict looks at the columns of the declared indicators only, with their
interval suffix. A column that is referenced without being declared is
computed and read all the same, and a derived signal of an informative
timeframe is not recognized under its suffixed name.

No `sorry`, no `axiom`.
-/
import Finbar.Parity.FrameDependency

namespace Finbar.Parity

open Lib Lib.Python Finbar.Parser Finbar.Streaming Finbar.Indicators
open Finbar.Evaluation (riskReads BarDict present)

/-! ## §1 Reads -/

/-- Two bars agree on the columns that the evaluation of a strategy reads. -/
def AgreeOnReads (definition : StrategyDefinition) (bar bar' : BarDict) : Prop :=
  ∀ column ∈ evaluationReads definition, bar.get column = bar'.get column

theorem AgreeOnReads.operand {definition : StrategyDefinition} {bar bar' : BarDict}
    (h : AgreeOnReads definition bar bar') {operand : Operand}
    (hoperand : operand ∈ definition.operands) : OperandAgrees bar bar' operand := by
  have hreads (hkind : operand.kind.isColumn = true) {column : String}
      (hcolumn : column ∈ Operand.column operand :: operand.sources) :
      bar.get column = bar'.get column := by
    refine h column (List.mem_append_left _ (List.mem_flatMap.mpr ⟨operand, ?_, hcolumn⟩))
    exact List.mem_filter.mpr ⟨hoperand, hkind⟩
  exact ⟨fun hkind => hreads hkind List.mem_cons_self,
    fun hkind _ source hsource => hreads hkind (List.mem_cons_of_mem _ hsource)⟩

/-- **The signals of a strategy depend on nothing but the columns that its
evaluation reads.** -/
theorem signals_depend_on_reads {definition : StrategyDefinition} {bars bars' : ℕ → BarDict}
    (h : ∀ i, AgreeOnReads definition (bars i) (bars' i))
    (positions : ℕ → Option Evaluation.PositionDict) (i : ℕ) :
    signalAt definition bars positions i = signalAt definition bars' positions i :=
  signalAt_congr (fun i _ hoperand => (h i).operand hoperand)
    (fun i column hcolumn => h i column (List.mem_append_right _ hcolumn)) positions i

/-! ## §2 Verdicts -/

theorem classify_batch_safe_iff (names : List String) :
    (classifyFrameDependency names .batchFullFrame).liveParitySafe = true ↔
      ∀ name ∈ names, isFrameDependentIndicator name = false := by
  have hempty : (names.filter isFrameDependentIndicator).isEmpty = true ↔
      ∀ name ∈ names, isFrameDependentIndicator name = false := by
    rw [List.isEmpty_iff, List.filter_eq_nil_iff]
    simp only [Bool.not_eq_true]
  rw [← hempty, classifyFrameDependency]
  cases (names.filter isFrameDependentIndicator).isEmpty <;> simp

theorem mem_sortedSet {names : List String} {name : String} :
    name ∈ sortedSet names ↔ name ∈ names := by
  rw [sortedSet, List.mem_mergeSort, List.mem_dedup]

/-- The guard leaves a batch request alone, and gives up a live-parity request
over unsupported metrics only. -/
theorem guard_batch {matrix : StreamingCoverageMatrix} {registry : HandlerRegistry}
    {mode : EnrichmentMode} {accepted : AcceptedStrategy} {guarded : CoverageGuard}
    (h : applyStreamingCoverageGuard matrix registry mode accepted = .ok guarded)
    (hbatch : guarded.mode = .batchFullFrame) :
    guarded.unsupported.isEmpty = decide (mode = .batchFullFrame) := by
  unfold applyStreamingCoverageGuard at h
  cases mode with
  | batchFullFrame =>
      cases h
      rfl
  | liveParityStreaming =>
      cases hreport : classifyStreamingCoverage matrix registry
          (coverageIndicatorNames accepted) with
      | error e =>
          rw [hreport] at h
          cases h
      | ok report =>
          rw [hreport] at h
          cases hsafe : report.liveParitySafe with
          | true =>
              simp only [bind, Except.bind, hsafe, if_true, pure, Except.pure,
                Except.ok.injEq] at h
              subst h
              cases hbatch
          | false =>
              simp only [bind, Except.bind, hsafe, Bool.false_eq_true, if_false, pure,
                Except.pure, Except.ok.injEq] at h
              subst h
              obtain ⟨name, hname⟩ : ∃ name, name ∈ report.unsupported := by
                refine List.exists_mem_of_ne_nil _ fun hnil => ?_
                rw [StreamingCoverageReport.liveParitySafe, hnil] at hsafe
                cases hsafe
              have hne : sortedSet report.unsupported ≠ [] :=
                List.ne_nil_of_mem (mem_sortedSet.mpr hname)
              simpa using hne

/-- A result in batch mode is annotated as safe when batch mode was requested
and no declared column is frame-dependent. -/
theorem annotated_safe_iff {ρ : Type} {matrix : StreamingCoverageMatrix}
    {registry : HandlerRegistry} {mode : EnrichmentMode} {useEnricher : Bool}
    {accepted : AcceptedStrategy} {dto result : BacktestResultDto ρ}
    (h : annotatedResult matrix registry mode useEnricher accepted dto = .ok result)
    (hbatch : result.enrichmentMode = .batchFullFrame) :
    result.liveParitySafe = true ↔
      mode = .batchFullFrame ∧
        ∀ name ∈ requiredIndicators accepted.definition,
          isFrameDependentIndicator name = false := by
  have hannotate {guarded : CoverageGuard} (hmode : guarded.mode = .batchFullFrame)
      (hunsupported : guarded.unsupported.isEmpty = decide (mode = .batchFullFrame)) :
      (annotateParityMetadata dto guarded.mode accepted guarded.warnings
        guarded.unsupported).liveParitySafe = true ↔
        mode = .batchFullFrame ∧
          ∀ name ∈ requiredIndicators accepted.definition,
            isFrameDependentIndicator name = false := by
    rw [annotateParityMetadata, hmode, Bool.and_eq_true, classify_batch_safe_iff, hunsupported,
      decide_eq_true_iff, and_comm]
  unfold annotatedResult at h
  cases useEnricher with
  | false =>
      simp only [Bool.false_eq_true, if_false, bind, Except.bind, pure, Except.pure,
        Except.ok.injEq] at h
      subst h
      have hmode : mode = .batchFullFrame := hbatch
      have hnone : ([] : List String).isEmpty = decide (mode = .batchFullFrame) := by
        rw [hmode]
        rfl
      exact @hannotate { mode := mode } hmode hnone
  | true =>
      cases hguard : applyStreamingCoverageGuard matrix registry mode accepted with
      | error e =>
          rw [hguard] at h
          cases h
      | ok guarded =>
          simp only [if_true, hguard, bind, Except.bind, pure, Except.pure,
            Except.ok.injEq] at h
          subst h
          exact hannotate hbatch (guard_batch hguard hbatch)

/-! ## §3 Certificates -/

/-- Nothing that a strategy reads is frame-dependent once the suffix of an
informative interval is removed. -/
def ReadsNothingFrameDependent (strOf : Json → String) (definition : StrategyDefinition) :
    Prop :=
  ∀ column ∈ strategyReads strOf definition,
    isFrameDependentIndicator (withoutInterval definition column) = false

/-- An indicator is declared whose column name, suffix included, counts as
frame-dependent. -/
def DeclaresFrameDependent (definition : StrategyDefinition) : Prop :=
  ∃ item ∈ definition.indicators, isFrameDependentIndicator item.columnName = true

/-- The two kinds of frame-dependent columns that the verdict does not see: one
that is not declared, and a derived signal that is declared on an informative
timeframe, which is known by its name without the suffix only. -/
inductive Unseen (definition : StrategyDefinition) (column : String) : Prop
  | undeclared (hdeclared : column ∉ requiredIndicators definition)
      (hdependent : isFrameDependentIndicator (withoutInterval definition column) = true)
  | suffixed (hdeclared : column ∈ requiredIndicators definition)
      (hsuffix : withoutInterval definition column ≠ column)
      (hderived : withoutInterval definition column ∈ frameDependentDerived)

theorem withoutInterval_isStart (definition : StrategyDefinition) (column : String) :
    (withoutInterval definition column).toList <+: column.toList := by
  unfold withoutInterval
  split
  · rw [String.toList_ofList]
    exact List.take_prefix _ _
  · exact List.prefix_rfl

/-- A start that is left without the suffix is there with it. -/
theorem startsWith_of_withoutInterval {definition : StrategyDefinition} {column start : String}
    (h : startsWith (withoutInterval definition column) start = true) :
    startsWith column start = true := by
  rw [startsWith, List.isPrefixOf_iff_prefix] at h ⊢
  exact h.trans (withoutInterval_isStart definition column)

/-- Among strategies that declare no frame-dependent column, those that read
one read an unseen one. -/
theorem unseen_iff {definition : StrategyDefinition} {column : String}
    (h : ¬ DeclaresFrameDependent definition) :
    Unseen definition column ↔
      isFrameDependentIndicator (withoutInterval definition column) = true := by
  constructor
  · rintro (⟨-, hdependent⟩ | ⟨-, -, hderived⟩)
    · exact hdependent
    · rw [isFrameDependentIndicator, List.contains_iff_mem.mpr hderived, Bool.true_or]
  · intro hdependent
    by_cases hdeclared : column ∈ requiredIndicators definition
    · have hname : isFrameDependentIndicator column = false := by
        obtain ⟨item, hitem, rfl⟩ := List.mem_map.mp hdeclared
        exact Bool.eq_false_iff.mpr fun hname => h ⟨item, hitem, hname⟩
      refine .suffixed hdeclared (fun hsame => ?_) ?_
      · rw [hsame, hname] at hdependent
        cases hdependent
      · rw [isFrameDependentIndicator, Bool.or_eq_true] at hdependent
        rcases hdependent with hderived | hstart
        · exact List.contains_iff_mem.mp hderived
        · obtain ⟨start, hmem, hstart⟩ := List.any_eq_true.mp hstart
          have hwhole : isFrameDependentIndicator column = true := by
            rw [isFrameDependentIndicator, Bool.or_eq_true]
            exact .inr (List.any_eq_true.mpr ⟨start, hmem, startsWith_of_withoutInterval hstart⟩)
          rw [hname] at hwhole
          cases hwhole
    · exact .undeclared hdeclared hdependent

/-- **The certificate of a result in batch mode is right** exactly for the
results that fell back from live parity, for the strategies that declare some
frame-dependent column, and for those that read no unseen one. The reads are enough: bars that
agree on them give the same signals. -/
theorem certificate_sound_iff (strOf : Json → String) {accepted : AcceptedStrategy} {ρ : Type}
    {matrix : StreamingCoverageMatrix} {registry : HandlerRegistry} {mode : EnrichmentMode}
    {useEnricher : Bool} {dto result : BacktestResultDto ρ}
    (hresult : annotatedResult matrix registry mode useEnricher accepted dto = .ok result)
    (hbatch : result.enrichmentMode = .batchFullFrame) :
    ((result.liveParitySafe = true →
        ReadsNothingFrameDependent strOf accepted.definition) ↔
      mode = .liveParityStreaming ∨ DeclaresFrameDependent accepted.definition ∨
        ∀ column ∈ strategyReads strOf accepted.definition,
          ¬ Unseen accepted.definition column) ∧
    ∀ (bars bars' : ℕ → BarDict) (positions : ℕ → Option Evaluation.PositionDict),
      (∀ i, AgreeOnReads accepted.definition (bars i) (bars' i)) →
        ∀ i, signalAt accepted.definition bars positions i =
          signalAt accepted.definition bars' positions i := by
  refine ⟨?_, fun _ _ positions hagree i => signals_depend_on_reads hagree positions i⟩
  have hdeclares : (∀ name ∈ requiredIndicators accepted.definition,
      isFrameDependentIndicator name = false) ↔ ¬ DeclaresFrameDependent accepted.definition := by
    simp [DeclaresFrameDependent, requiredIndicators]
  have hunseen (hdeclared : ¬ DeclaresFrameDependent accepted.definition) :
      ReadsNothingFrameDependent strOf accepted.definition ↔
        ∀ column ∈ strategyReads strOf accepted.definition,
          ¬ Unseen accepted.definition column := by
    simp only [ReadsNothingFrameDependent, unseen_iff hdeclared, Bool.not_eq_true]
  rw [annotated_safe_iff hresult hbatch, hdeclares]
  cases mode with
  | liveParityStreaming => simp only [reduceCtorEq, false_and, false_imp_iff, true_or]
  | batchFullFrame =>
      simp only [true_and, reduceCtorEq, false_or]
      by_cases hdeclared : DeclaresFrameDependent accepted.definition
      · simp only [hdeclared, not_true_eq_false, false_imp_iff, true_or]
      · simp only [hdeclared, not_false_eq_true, true_imp_iff, false_or, hunseen hdeclared]

/-! ## §4 A strategy over value-area levels -/

/-- A catalog of the point of control. -/
def levelCatalog : IndicatorCapabilityProvider where
  resolve type _ := if type = "vp_poc" then some "vp_poc" else none
  requiresPeriod _ := false
  acceptsPeriod _ := false
  supportsConcrete name := decide (name = "vp_poc")

def levelEnvironment : ParserEnvironment where
  catalog := levelCatalog
  strOf _ := "1.0"

/-- Enter long above the point of control. -/
def abovePoc (indicators : List Json) : Json :=
  .dict [("schema_version", .str "2.0"), ("name", .str "above poc"),
    ("indicators", .list indicators),
    ("sides", .dict [("long", .dict [("entry", .dict [("condition", .dict
      [("left", .str "close"), ("operator", .str ">"), ("right", .str "vp_poc")])])])])]

/-- No handlers. -/
def noHandlers : HandlerRegistry where
  requires := []
  bb_free := rfl

/-- The guard leaves a request for batch mode as it is. -/
theorem annotatedResult_batch {ρ : Type} (matrix : StreamingCoverageMatrix)
    (registry : HandlerRegistry) (useEnricher : Bool) (accepted : AcceptedStrategy)
    (dto : BacktestResultDto ρ) :
    annotatedResult matrix registry .batchFullFrame useEnricher accepted dto =
      .ok (annotateParityMetadata dto .batchFullFrame accepted [] []) := by
  cases useEnricher <;> rfl

/-- With a declaration, the result is not certified. -/
theorem certificate_sound_declared :
    ∃ accepted, parse levelEnvironment
        (abovePoc [.dict [("name", .str "poc"), ("type", .str "vp_poc")]]) [] =
          .ok (.valid accepted) ∧
      ∃ result, annotatedResult {} noHandlers .batchFullFrame true accepted
          { metrics := () } = .ok result ∧
        (result.liveParitySafe = true →
          ReadsNothingFrameDependent levelEnvironment.strOf accepted.definition) := by
  refine ⟨_, rfl, _, annotatedResult_batch .., ?_⟩
  refine (certificate_sound_iff _ (annotatedResult_batch {} noHandlers true _ _) rfl).1.mpr ?_
  exact .inr (.inl ⟨_, List.mem_singleton.mpr rfl, by decide +kernel⟩)

/-- **A certified result of a strategy that reads `vp_poc`**: the column is
referenced by the condition and not declared. -/
theorem undeclared_poc_certified :
    ∃ accepted, parse levelEnvironment (abovePoc []) [] = .ok (.valid accepted) ∧
      ∃ result, annotatedResult {} noHandlers .batchFullFrame true accepted
          { metrics := () } = .ok result ∧
        result.enrichmentMode = .batchFullFrame ∧ result.liveParitySafe = true ∧
        "vp_poc" ∈ strategyReads levelEnvironment.strOf accepted.definition ∧
        isFrameDependentIndicator (withoutInterval accepted.definition "vp_poc") = true :=
  ⟨_, rfl, _, annotatedResult_batch .., rfl, rfl, by decide +kernel, by decide +kernel⟩

end Finbar.Parity
