/-
Finbar.Pipeline.Jobs — indicator jobs under way: their worker threads and
coroutines (`CachedPriceIndicatorJobRunner`), the callers of `cancel` and the
readers of `InMemoryIndicatorJobManager`, and the pipeline that waits for its
jobs (`RunStrategyPipelineUseCase`).

A worker thread never looks at the job it works for, so what it does to the
manager is a list of operations. One step of the system is one locked operation
of the manager, one read of a status, one request to cancel a task, or one
resumption of a coroutine. The semaphore only delays a job's beginning; the jobs
that run are all registered, and none is deleted or evicted meanwhile.

No `sorry`, no `axiom`.
-/
import Finbar.IndicatorJobs.Runner
import Finbar.Lib.Steps
import Mathlib.Logic.Function.Basic

namespace Finbar.Pipeline

open Lib Lib.Python Finbar.IndicatorJobs

/-! ## §1 Jobs and updates -/

/-- The values of `IndicatorJob.status`. -/
inductive JobStatus where
  | queued
  | running
  | completed
  | failed
  | cancelled
  deriving DecidableEq

/-- `status in {"completed", "failed", "cancelled"}`. -/
def JobStatus.terminal : JobStatus → Bool
  | .queued => false
  | .running => false
  | .completed => true
  | .failed => true
  | .cancelled => true

/-- The fields of `IndicatorJob` that change while it runs. -/
structure JobState where
  status : JobStatus := .queued
  progressPct : ℕ := 0
  stage : String := "queued"
  message : Message := { template := "" }
  totalBarCount : ℕ := 0
  error : Option Message := none

/-- The keyword arguments of one `update`; a field that is not given stays. -/
structure JobUpdate where
  status : Option JobStatus := none
  progressPct : Option ℕ := none
  stage : Option String := none
  message : Option Message := none
  totalBarCount : Option ℕ := none
  error : Option Message := none

/-- `update(job, **updates)`. -/
def JobState.update (job : JobState) (u : JobUpdate) : JobState where
  status := u.status.getD job.status
  progressPct := u.progressPct.getD job.progressPct
  stage := u.stage.getD job.stage
  message := u.message.getD job.message
  totalBarCount := u.totalBarCount.getD job.totalBarCount
  error := u.error.or job.error

/-- The update of `_mark`. -/
def markUpdate (progress : ℕ) (stage : String) (message : Message) : JobUpdate :=
  { status := some .running, progressPct := some progress, stage := some stage
    message := some message }

/-- The update of `_fail`. -/
def failUpdate (error : Message) : JobUpdate :=
  { status := some .failed, progressPct := some 100, stage := some "failed", error := some error }

/-- The update to `completed`. -/
def completedUpdate (text : String) (bars : ℕ) : JobUpdate :=
  { status := some .completed, progressPct := some 100, stage := some "completed"
    message := some { template := text }, totalBarCount := some bars }

/-- `update(job, status="cancelled", error="Cancelled by user")`. -/
def cancelledUpdate : JobUpdate :=
  { status := some .cancelled, error := some { template := "Cancelled by user" } }

/-! ## §2 The worker thread -/

/-- An operation of a worker thread: `update`, `store_frame`, the locked block of
`store_result`, and its `_persist_artifact`. -/
inductive WorkerOp where
  | update (u : JobUpdate)
  | storeFrame
  | storeResult (bars : List BarDict)
  | persist (bars : List BarDict)

variable {H : Type}

/-- How `_sync_run` ends: with `_fail`, in `_try_reuse_artifact`, or with the
enriched bars. -/
def publish : Except Message (JobResult H) → List WorkerOp
  | .error error => [.update (failUpdate error)]
  | .ok { bars, reused := true, .. } =>
      [.update (completedUpdate "Reused existing artifact" bars.length), .storeResult bars,
        .persist bars]
  | .ok { bars, reused := false, .. } =>
      [.update (completedUpdate "Indicator computation completed" bars.length), .storeFrame,
        .storeResult bars, .persist bars]

/-- What a worker thread does: its progress updates, then what it does with the
result of `syncRun`. It may raise in place of an operation. -/
structure WorkerRun (H : Type) where
  marks : List JobUpdate
  marks_open : ∀ u ∈ marks, u.status = none ∨ u.status = some .running
  result : Except Message (JobResult H)
  raised : Option (ℕ × Message) := none

/-- The operations that it gets to. -/
def WorkerRun.ops (run : WorkerRun H) : List WorkerOp :=
  let ops := run.marks.map WorkerOp.update ++ publish run.result
  match run.raised with
  | none => ops
  | some (count, _) => ops.take count

/-- A started job: what its worker will do, and whether the manager knows its
task (there was a running event loop). -/
structure Launch (H : Type) where
  run : WorkerRun H
  hasTask : Bool := true

/-! ## §3 The system -/

/-- Where the coroutine `run(job)` stands. -/
inductive RunnerPhase where
  | created
  | awaiting
  | finished
  deriving DecidableEq

/-- Where a call of `cancel(job_id)` stands: it has read a status that is not
terminal, and then has cancelled the task. -/
inductive CancelPhase (ι : Type) where
  | idle
  | found (job : ι)
  | stopped (job : ι)

/-- Where the pipeline stands: in a pass of `_await_jobs`, before a job; before
the second read of a job's status, which was not `failed`; between two passes;
returned with an error; or in `_run_backtest`. -/
inductive PipelinePhase (ι : Type) where
  | polling (passes : ℕ) (todo : List ι) (allDone : Bool) (error : Option Message)
  | rereading (passes : ℕ) (job : ι) (todo : List ι) (allDone : Bool) (error : Option Message)
  | waiting (passes : ℕ)
  | stopped (error : Message)
  | backtest

/-- The manager, the threads and coroutines of the jobs, the callers that cancel
them and the pipeline. `performed` counts the operations of a worker thread that
has begun. `readCompleted` records which jobs have been read as completed. -/
structure JobSystem (ι κ : Type) where
  jobs : ι → JobState := fun _ => {}
  results : ι → Option (List BarDict) := fun _ => none
  artifacts : ι → Option (JobStatus × List BarDict) := fun _ => none
  performed : ι → Option ℕ := fun _ => none
  runners : ι → RunnerPhase := fun _ => .created
  cancelRequested : ι → Bool := fun _ => false
  cancels : κ → CancelPhase ι := fun _ => .idle
  pipeline : PipelinePhase ι
  readCompleted : ι → Bool := fun _ => false

/-- `get_artifact_bars`. -/
def JobSystem.getArtifactBars {ι κ : Type} (s : JobSystem ι κ) (job : ι) :
    Option (List BarDict) :=
  (s.results job).or ((s.artifacts job).map Prod.snd)

/-- One atomic step. -/
inductive JobAction (ι κ : Type) where
  | begin (job : ι)
  | work (job : ι)
  | resume (job : ι)
  | look (caller : κ) (job : ι)
  | stop (caller : κ)
  | mark (caller : κ)
  | read (job : ι)
  | poll

/-- What the system is started with: the jobs' launches, the jobs of the
pipeline, and whether there is a session factory. -/
structure Setting (ι H : Type) where
  launch : ι → Launch H
  jobIds : List ι
  persists : Bool

/-- `_POLL_INTERVAL` and `_POLL_TIMEOUT`. -/
def pollInterval : ℚ := 1 / 2

def pollTimeout : ℚ := 1800

/-- `job.error or "Job failed"`. -/
def jobFailure (job : JobState) : Message :=
  match job.error with
  | none => { template := "Job failed" }
  | some error => if error.template = "" then { template := "Job failed" } else error

section Step

variable {ι κ : Type} [DecidableEq ι] [DecidableEq κ]

/-- `update`. -/
def JobSystem.updateJob (s : JobSystem ι κ) (job : ι) (u : JobUpdate) : JobSystem ι κ :=
  { s with jobs := Function.update s.jobs job ((s.jobs job).update u) }

/-- A read of a job's status is remembered if it is `completed`. -/
def JobSystem.noteRead (s : JobSystem ι κ) (job : ι) : JobSystem ι κ :=
  if (s.jobs job).status = .completed then
    { s with readCompleted := Function.update s.readCompleted job true }
  else s

/-- An operation of a worker. -/
def JobSystem.perform (persists : Bool) (s : JobSystem ι κ) (job : ι) : WorkerOp → JobSystem ι κ
  | .update u => s.updateJob job u
  | .storeFrame => s
  | .storeResult bars =>
      { s with
        results := Function.update s.results job (some bars)
        jobs := Function.update s.jobs job
          { s.jobs job with totalBarCount := bars.length } }
  | .persist bars =>
      if persists then
        { s with
          artifacts := Function.update s.artifacts job (some ((s.jobs job).status, bars)) }
      else s

/-- A step of `_await_jobs`, and of what follows it. -/
def JobSystem.poll (jobIds : List ι) (s : JobSystem ι κ) : JobSystem ι κ :=
  match s.pipeline with
  | .polling passes (job :: todo) allDone error =>
      if (s.jobs job).status = .failed then
        { s with pipeline := .polling passes todo allDone (some (jobFailure (s.jobs job))) }
      else { s with pipeline := .rereading passes job todo allDone error }
  | .rereading passes job todo allDone error =>
      let status := (s.jobs job).status
      let allDone := allDone && decide (status = .completed ∨ status = .cancelled)
      { s.noteRead job with pipeline := .polling passes todo allDone error }
  | .polling passes [] allDone error =>
      match error with
      | some error => { s with pipeline := .stopped error }
      | none =>
          if allDone then { s with pipeline := .backtest }
          else if pollTimeout ≤ passes * pollInterval then
            { s with pipeline := .stopped { template := "Indicator jobs timed out" } }
          else { s with pipeline := .waiting passes }
  | .waiting passes => { s with pipeline := .polling (passes + 1) jobIds true none }
  | .stopped _ => s
  | .backtest => s

/-- What the coroutine resumes with: still waiting, or the update that it makes
before it ends, if any. -/
def JobSystem.resumption (setting : Setting ι H) (s : JobSystem ι κ) (job : ι) :
    Option (Option JobUpdate) :=
  -- the cancellation of the task is delivered first, whatever the thread does
  if s.cancelRequested job then some (some cancelledUpdate)
  else
    match s.performed job with
    | none => none
    | some count =>
        if count < (setting.launch job).run.ops.length then none
        else
          match (setting.launch job).run.raised with
          | some (_, message) => some (some (failUpdate (message.after "Internal error: ")))
          | none => some none

/-- What a step does. One that its thread does not stand at changes nothing. -/
def JobSystem.step (setting : Setting ι H) (s : JobSystem ι κ) : JobAction ι κ → JobSystem ι κ
  | .begin job =>
      match s.runners job with
      | .created =>
          -- a task cancelled before it began never runs its coroutine
          if s.cancelRequested job then
            { s with runners := Function.update s.runners job .finished }
          else
            { s with
              runners := Function.update s.runners job .awaiting
              performed := Function.update s.performed job (some 0) }
      | _ => s
  | .work job =>
      match s.performed job with
      | none => s
      | some count =>
          match (setting.launch job).run.ops[count]? with
          | none => s
          | some op =>
              { s.perform setting.persists job op with
                performed := Function.update s.performed job (some (count + 1)) }
  | .resume job =>
      match s.runners job, s.resumption setting job with
      | .awaiting, some (some u) =>
          { s.updateJob job u with runners := Function.update s.runners job .finished }
      | .awaiting, some none =>
          { s with runners := Function.update s.runners job .finished }
      | _, _ => s
  | .look caller job =>
      match s.cancels caller with
      | .idle =>
          if (s.jobs job).status.terminal then s.noteRead job
          else { s with cancels := Function.update s.cancels caller (.found job) }
      | _ => s
  | .stop caller =>
      match s.cancels caller with
      | .found job =>
          { s with
            cancelRequested := Function.update s.cancelRequested job
              (s.cancelRequested job ||
                ((setting.launch job).hasTask && s.runners job != .finished))
            cancels := Function.update s.cancels caller (.stopped job) }
      | _ => s
  | .mark caller =>
      match s.cancels caller with
      | .stopped job =>
          { s.updateJob job cancelledUpdate with
            cancels := Function.update s.cancels caller .idle }
      | _ => s
  | .read job => s.noteRead job
  | .poll => s.poll setting.jobIds

/-- The jobs are started, and the pipeline begins its first pass. -/
def JobSystem.init (setting : Setting ι H) : JobSystem ι κ where
  pipeline := .polling 0 setting.jobIds true none

end Step

end Finbar.Pipeline
