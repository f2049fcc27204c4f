/-
Finbar.Optimization.Jobs — optimization jobs: the entity, the updates that the
worker threads of the two runners issue (`GridSearchOptimizer._sync_run`,
`WalkForwardOptimizer._sync_run`), and the system of a job, its runner and the
callers of `cancel` (`InMemoryOptimizationJobManager`).

A worker thread never looks at the job it works for, so what it issues is a
list of updates; it then returns or raises. One step of the system is one
locked update, one read of the status, one request to cancel the task, or one
resumption of the runner's coroutine.

No `sorry`, no `axiom`.
-/
import Finbar.Lib.Steps
import Finbar.Optimization.WalkForward
import Mathlib.Logic.Function.Basic

namespace Finbar.Optimization

open Lib Lib.Python Finbar.Backtest

/-! ## §1 Jobs and updates -/

/-- The values of `OptimizationJob.status`. -/
inductive JobStatus where
  | queued
  | running
  | completed
  | failed
  | cancelled
  deriving DecidableEq

/-- `status in {"completed", "failed", "cancelled"}`. -/
def JobStatus.terminal : JobStatus → Bool
  | .queued => false
  | .running => false
  | .completed => true
  | .failed => true
  | .cancelled => true

/-- `OptimizationJob`, with the walk-forward result of its metadata. -/
structure OptimizationJob where
  status : JobStatus := .queued
  totalCombinations : ℕ := 0
  combinationsDone : ℕ := 0
  progressPct : ℕ := 0
  message : Message := { template := "" }
  results : List OptimizationResult := []
  error : Option Message := none
  walkForwardResult : Option WalkForwardResult := none

/-- The keyword arguments of one `update`; a field that is not given stays. -/
structure JobUpdate where
  status : Option JobStatus := none
  totalCombinations : Option ℕ := none
  combinationsDone : Option ℕ := none
  progressPct : Option ℕ := none
  message : Option Message := none
  results : Option (List OptimizationResult) := none
  error : Option Message := none
  walkForwardResult : Option WalkForwardResult := none

/-- `update(job, **updates)`. -/
def OptimizationJob.update (job : OptimizationJob) (u : JobUpdate) : OptimizationJob where
  status := u.status.getD job.status
  totalCombinations := u.totalCombinations.getD job.totalCombinations
  combinationsDone := u.combinationsDone.getD job.combinationsDone
  progressPct := u.progressPct.getD job.progressPct
  message := u.message.getD job.message
  results := u.results.getD job.results
  error := u.error.or job.error
  walkForwardResult := u.walkForwardResult.or job.walkForwardResult

/-- `update(job, status="failed", error=…)`. -/
def failedUpdate (message : Message) : JobUpdate :=
  { status := some .failed, error := some message }

/-- `update(job, status="cancelled", error="Cancelled by user")`. -/
def cancelledUpdate : JobUpdate :=
  { status := some .cancelled, error := some { template := "Cancelled by user" } }

/-! ## §2 The worker threads -/

/-- What a worker thread does: the updates it issues, and the exception it then
raises, if any. -/
structure WorkerRun where
  updates : List JobUpdate
  raised : Option PyError := none

/-- What the runners are wired with. -/
structure RunnerDeps (D δ ι σ : Type) extends WalkForwardDeps D δ ι σ where
  artifactBars : String → Except PyError (Option (List Bar))
  floatMath : FloatMath
  diagnostics : FoldDiagnostics

/-- What a job's metadata asks for, with the combinations drawn from its
ranges. -/
structure JobRequest (D : Type) where
  definition : D
  metadata : Kwargs
  combinations : Except PyError (List Kwargs)
  metric : String

variable {D δ ι σ : Type} [LinearOrder ι]

/-- `_resolve_artifact`. -/
def resolveArtifact (env : RunnerDeps D δ ι σ) (metadata : Kwargs) :
    Except PyError (List Bar) := do
  let artifactId := strParam metadata "bars_artifact_id" "" ""
  if artifactId = "" then
    throw (.valueError { template := "bars_artifact_id is required" })
  match ← env.artifactBars artifactId with
  | some bars => return bars
  | none => throw (.valueError
      { template := "Artifact bars not found: %", args := [.text artifactId] })

/-- `_prepare_base_frame`: the structure comes from the definition without
parameters. -/
def prepareBaseFrame (deps : OptimizerDeps D δ ι σ) (definition : D) :
    Except PyError (Frame ι) := do
  match ← deps.parse definition [] with
  | some parsed => if parsed.hasInformative then deps.mergeInformative parsed else deps.barsToFrame
  | none => deps.barsToFrame

/-- The progress update before combination `idx` of `n`. The source truncates `idx / n * 100` in
doubles, which can be one percent less (29 of 100 gives 28). -/
def combinationProgress (n idx : ℕ) : JobUpdate :=
  { combinationsDone := some idx
    progressPct := some (idx * 100 / n)
    message := some { template := "Testing combination %/%"
                      args := [.num (idx + 1), .num n] } }

/-- `GridSearchOptimizer._sync_run`. -/
def GridSearchOptimizer.syncRun (env : RunnerDeps D δ ι σ) (request : JobRequest D) : WorkerRun :=
  match request.combinations with
  | .error e => { updates := [], raised := some e }
  | .ok combinations =>
      let n := combinations.length
      if combinations.isEmpty then
        { updates := [failedUpdate { template := "No parameter combinations generated — check that min <= max for all declared ranges" }] }
      else if 100 < n then
        { updates := [failedUpdate { template := "Too many combinations (%), max %"
                                     args := [.num n, .num 100] }] }
      else
        let started : JobUpdate :=
          { status := some .running
            totalCombinations := some n
            message := some { template := "Loading artifact bars" } }
        let prepared := do
          let bars ← resolveArtifact env request.metadata
          let frame ← prepareBaseFrame (env.deps bars) request.definition
          return (bars, frame)
        match prepared with
        | .error e => { updates := [started], raised := some e }
        | .ok (bars, frame) =>
            let results := GridSearchOptimizer.rankedResults (env.deps bars) request.definition
              combinations request.metadata (some frame) request.metric
            let completed : JobUpdate :=
              { status := some .completed
                progressPct := some 100
                combinationsDone := some n
                message := some { template := "Optimization complete" }
                results := some results }
            { updates := started :: (List.range n).map (combinationProgress n) ++ [completed] }

/-- The walk-forward configuration in a job's metadata. -/
def walkForwardConfig (metadata : Kwargs) : Except PyError WalkForwardConfig := do
  let folds ← (metadata.pop "wf_folds" (.ofRat 5)).toInt
  let trainRatio ← match ← (metadata.pop "wf_train_ratio" (.ofRat (7 / 10))).toFloat with
    | .fin q => pure q
    | _ => throw (.valueError { template := "cannot convert float to integer" })
  let anchor := (metadata.pop "wf_anchor" (.str "rolling")).toStr
  let minTrainBars ← (metadata.pop "wf_min_train_bars" (.ofRat 20)).toInt
  let minTestBars ← (metadata.pop "wf_min_test_bars" (.ofRat 5)).toInt
  return {
    folds := folds
    trainRatio := trainRatio
    anchor := anchor
    minTrainBars := minTrainBars
    minTestBars := minTestBars }

/-- The folds counted before the run: those that pass both minimum sizes. -/
def executableFolds (config : WalkForwardConfig) (indices : List FoldIndices) : ℕ :=
  (indices.filter fun fold => decide (config.minTrainBars ≤ fold.trainCount ∧
    max 1 config.minTestBars ≤ fold.testCount)).length

/-- The progress update before fold `idx` of `n`, with `runsDone` folds behind. The source
truncates `runs_done / executable * 100` in doubles, which can be one percent less. -/
def foldProgress (executable n runsDone idx : ℕ) : JobUpdate :=
  { combinationsDone := some runsDone
    progressPct := some (if 0 < executable then runsDone * 100 / max executable 1 else 0)
    message := some { template := "Fold %/%: grid search", args := [.num (idx + 1), .num n] } }

/-- `WalkForwardOptimizer._sync_run`. -/
def WalkForwardOptimizer.syncRun (env : RunnerDeps D δ ι σ) (request : JobRequest D) : WorkerRun :=
  let prepared := do
    let bars ← resolveArtifact env request.metadata
    let config ← walkForwardConfig request.metadata
    return (bars, config)
  match prepared with
  | .error e => { updates := [], raised := some e }
  | .ok (bars, config) =>
      let runFold := WalkForwardOptimizer.runFold env.toWalkForwardDeps request.definition
        request.combinations request.metric request.metadata
      match walkForwardResult env.floatMath env.diagnostics runFold config bars with
      | .error message => { updates := [failedUpdate message] }
      | .ok result =>
          let indices := jobFolds config bars
          let executable := executableFolds config indices
          let run := indices.zipIdx.filter fun p => p.1.enoughBars config
          let started : JobUpdate :=
            { status := some .running
              totalCombinations := some (max executable 1) }
          let completed : JobUpdate :=
            { status := some .completed
              progressPct := some 100
              combinationsDone := some run.length
              message := some { template := "Walk-forward complete" }
              walkForwardResult := some result }
          { updates := started ::
              run.mapIdx (fun runsDone p => foldProgress executable indices.length runsDone p.2)
                ++ [completed] }

/-! ## §3 A job, its runner and its cancellers -/

/-- Where the worker thread stands. -/
inductive WorkerPhase where
  | unstarted
  | working (remaining : List JobUpdate)
  | ended

/-- Where the coroutine `run(job)` stands. -/
inductive RunnerPhase where
  | created
  | awaiting
  | finished
  deriving DecidableEq

/-- Where a call of `cancel(job_id)` stands: it has read a status that is not
terminal, and then has cancelled the task. -/
inductive CancelPhase where
  | idle
  | found
  | stopped
  deriving DecidableEq

/-- A started job: what its worker will do, whether the manager knows its task
(there was a running event loop), and the text of its failure message. -/
structure Launch where
  run : WorkerRun
  hasTask : Bool
  failureText : String

/-- The launch of a grid search. -/
def GridSearchOptimizer.launch (env : RunnerDeps D δ ι σ) (request : JobRequest D)
    (hasTask : Bool) : Launch where
  run := GridSearchOptimizer.syncRun env request
  hasTask := hasTask
  failureText := "Optimization failed: "

/-- The launch of a walk-forward run. -/
def WalkForwardOptimizer.launch (env : RunnerDeps D δ ι σ) (request : JobRequest D)
    (hasTask : Bool) : Launch where
  run := WalkForwardOptimizer.syncRun env request
  hasTask := hasTask
  failureText := "Walk-forward failed: "

/-- The job, the threads that work on it and the callers that cancel it. -/
structure JobSystem (κ : Type) where
  job : OptimizationJob := {}
  worker : WorkerPhase := .unstarted
  runner : RunnerPhase := .created
  cancelRequested : Bool := false
  cancels : κ → CancelPhase := fun _ => .idle

/-- One atomic step. -/
inductive JobAction (κ : Type) where
  | begin
  | work
  | resume
  | look (caller : κ)
  | stop (caller : κ)
  | mark (caller : κ)

/-- What a step does. One that its thread does not stand at changes nothing. -/
def JobSystem.step {κ : Type} [DecidableEq κ] (launch : Launch) (s : JobSystem κ) :
    JobAction κ → JobSystem κ
  | .begin =>
      match s.runner with
      | .created =>
          -- a task cancelled before it began never runs its coroutine
          if s.cancelRequested then { s with runner := .finished }
          else { s with runner := .awaiting, worker := .working launch.run.updates }
      | _ => s
  | .work =>
      match s.worker with
      | .working (u :: us) => { s with job := s.job.update u, worker := .working us }
      | .working [] => { s with worker := .ended }
      | _ => s
  | .resume =>
      match s.runner with
      | .awaiting =>
          -- the cancellation of the task is delivered first, whatever the thread does
          if s.cancelRequested then
            { s with job := s.job.update cancelledUpdate, runner := .finished }
          else
            match s.worker, launch.run.raised with
            | .ended, some e =>
                { s with
                  job := s.job.update (failedUpdate (e.message.after launch.failureText))
                  runner := .finished }
            | .ended, none => { s with runner := .finished }
            | _, _ => s
      | _ => s
  | .look c =>
      if s.cancels c = .idle ∧ s.job.status.terminal = false then
        { s with cancels := Function.update s.cancels c .found }
      else s
  | .stop c =>
      if s.cancels c = .found then
        { s with
          cancelRequested := s.cancelRequested || (launch.hasTask && s.runner != .finished)
          cancels := Function.update s.cancels c .stopped }
      else s
  | .mark c =>
      if s.cancels c = .stopped then
        { s with
          job := s.job.update cancelledUpdate
          cancels := Function.update s.cancels c .idle }
      else s

end Finbar.Optimization
