/-
Finbar.IndicatorJobs.Manager — the in-memory indicator job manager
(`InMemoryIndicatorJobManager` without a database) and the threads that call it.

The manager keeps five dictionaries under one lock. A job is an object that the
callers and the manager share, so `_jobs` holds references into the list of all job
objects. Every block under the lock is one step, and so is every unlocked piece
between two of them: `start` goes through clean-up, dispatch and filing, `cancel`
through look-up, check and write, and `cancel_all_non_terminal` takes its snapshot
and then makes one call of `cancel` after the other. A frame is kept pickled, as a
value of any type `F`.

No `sorry`, no `axiom`.
-/
import Finbar.IndicatorJobs.Pages
import Finbar.Lib.Steps

namespace Finbar.IndicatorJobs.Manager

open Lib Lib.Python

variable {F : Type}

/-! ## §1 Jobs -/

/-- The values of `IndicatorJob.status`. -/
inductive JobStatus where
  | queued
  | running
  | completed
  | failed
  | cancelled
  deriving DecidableEq

/-- `status in {"completed", "failed", "cancelled"}`. -/
def JobStatus.terminal : JobStatus → Bool
  | .queued => false
  | .running => false
  | .completed => true
  | .failed => true
  | .cancelled => true

/-- `IndicatorJob`, as far as the manager reads and writes it. Times are in
microseconds. -/
structure Job where
  jobId : String
  status : JobStatus := .queued
  totalBarCount : ℕ := 0
  error : Option String := none
  createdAt : ℤ
  deriving DecidableEq

/-- A reference to a job object: its place among all job objects. -/
abbrev JobRef := ℕ

/-- The keyword arguments of one `update`; a field that is not given stays. -/
structure JobUpdate where
  status : Option JobStatus := none
  totalBarCount : Option ℕ := none
  error : Option (Option String) := none

/-- `setattr(job, key, value)` for the arguments of an `update`. -/
def Job.updated (job : Job) (updates : JobUpdate) : Job :=
  { job with
    status := updates.status.getD job.status
    totalBarCount := updates.totalBarCount.getD job.totalBarCount
    error := updates.error.getD job.error }

/-! ## §2 Lightweight metadata -/

/-- What `_compute_lightweight_meta` returns. -/
structure LightweightMeta where
  columns : List String
  startDate : String
  endDate : String
  barCount : ℕ
  nullCounts : OrderedDict String ℕ

/-- The columns that have been discovered, with their null counts. -/
structure ColumnScan where
  columns : List String := []
  nulls : OrderedDict String ℕ := {}

/-- One key of one bar. -/
def ColumnScan.note (bar : BarDict) (scan : ColumnScan) (key : String) : ColumnScan :=
  let scan := if key ∈ scan.columns then scan
    else ⟨scan.columns ++ [key], scan.nulls.assign key 0⟩
  match bar.get key with
  | some .none => { scan with nulls := scan.nulls.assign key ((scan.nulls.get key).getD 0 + 1) }
  | _ => scan

/-- `str(bar.get("timestamp", ""))`. -/
def timestampText (text : PyValue → String) (bar : BarDict) : String :=
  text ((bar.get "timestamp").getD (.str ""))

/-- `_compute_lightweight_meta`. -/
def computeLightweightMeta (text : PyValue → String) (bars : List BarDict) : LightweightMeta :=
  let scan := bars.foldl (fun scan bar => bar.keys.foldl (ColumnScan.note bar) scan) {}
  { columns := scan.columns
    startDate := ((bars.head?).map (timestampText text)).getD ""
    endDate := ((bars.getLast?).map (timestampText text)).getD ""
    barCount := bars.length
    nullCounts := scan.nulls }

/-! ## §3 The manager -/

/-- The manager, all job objects, and the tasks that were asked to cancel. A task is
named by the job it runs. -/
structure JobManager (F : Type) where
  maxJobs : ℕ
  ttl : ℤ
  objects : List Job := []
  jobs : OrderedDict String JobRef := {}
  tasks : OrderedDict String JobRef := {}
  results : OrderedDict String (List BarDict) := {}
  frames : OrderedDict String F := {}
  metaCache : OrderedDict String LightweightMeta := {}
  cancelRequests : List JobRef := []

namespace JobManager

variable (m : JobManager F)

/-- `InMemoryIndicatorJobManager(max_jobs, ttl_seconds)`. -/
def init (maxJobs ttlSeconds : ℤ) : JobManager F where
  maxJobs := (max 1 maxJobs).toNat
  ttl := max 1 ttlSeconds * 1000000

/-- What is popped for a job by `delete_artifact` and by `cleanup_expired`. -/
def remove (jobId : String) : JobManager F :=
  { m with
    jobs := m.jobs.erase jobId
    tasks := m.tasks.erase jobId
    results := m.results.erase jobId
    frames := m.frames.erase jobId
    metaCache := m.metaCache.erase jobId }

/-- What is popped for a job by `_enforce_max_jobs_locked`: everything but the
frame. -/
def evict (jobId : String) : JobManager F :=
  { m with
    jobs := m.jobs.erase jobId
    tasks := m.tasks.erase jobId
    results := m.results.erase jobId
    metaCache := m.metaCache.erase jobId }

/-- The job objects that are filed, in their order. -/
def filedJobs : List Job := m.jobs.items.filterMap fun entry => m.objects[entry.2]?

/-- The job objects that `_enforce_max_jobs_locked` looks at, the oldest first. -/
def removable : List Job :=
  m.filedJobs.insertionSort fun job job' => job.createdAt ≤ job'.createdAt

/-- The loop of `_enforce_max_jobs_locked`. -/
def enforceFrom : List Job → JobManager F → JobManager F
  | [], m => m
  | job :: rest, m =>
      if m.jobs.items.length ≤ m.maxJobs then m
      else enforceFrom rest (if job.status.terminal then m.evict job.jobId else m)

/-- `_enforce_max_jobs_locked`. -/
def enforceMaxJobs : JobManager F :=
  if m.jobs.items.length ≤ m.maxJobs then m else enforceFrom m.removable m

/-- The terminal jobs that were created before the cutoff. -/
def expired (cutoff : ℤ) : List String :=
  (m.jobs.items.filter fun entry =>
    match m.objects[entry.2]? with
    | some job => job.status.terminal && decide (job.createdAt < cutoff)
    | none => false).map Prod.fst

/-- `cleanup_expired`, at a time. -/
def cleanupExpired (now : ℤ) : JobManager F :=
  (m.expired (now - m.ttl)).foldl remove m

/-- `update`. -/
def update (job : JobRef) (updates : JobUpdate) : JobManager F :=
  { m with objects := m.objects.modify job fun record => record.updated updates }

/-- The block of `store_result`. -/
def storeResult (text : PyValue → String) (job : JobRef) (bars : List BarDict) :
    JobManager F :=
  match m.objects[job]? with
  | none => m
  | some record =>
      { m with
        results := m.results.assign record.jobId bars
        metaCache := m.metaCache.assign record.jobId (computeLightweightMeta text bars)
        objects := m.objects.modify job fun record => { record with totalBarCount := bars.length } }

/-- The block of `store_frame`. -/
def storeFrame (job : JobRef) (frame : F) : JobManager F :=
  match m.objects[job]? with
  | none => m
  | some record => { m with frames := m.frames.assign record.jobId frame }

/-- `self._jobs[job.job_id] = job`. -/
def file (job : JobRef) : JobManager F :=
  match m.objects[job]? with
  | none => m
  | some record => { m with jobs := m.jobs.assign record.jobId job }

/-- `delete_artifact`: the manager afterwards, and whether the job was in memory. -/
def deleteArtifact (jobId : String) : JobManager F × Bool :=
  (m.remove jobId, decide (jobId ∈ m.results.keys) || decide (jobId ∈ m.jobs.keys))

end JobManager

/-! ## §4 Calls in progress -/

/-- The loop of `cancel_all_non_terminal`: the ids still to come, the jobs counted,
and, which the code does not record, the jobs that the loop has changed. -/
structure Tally where
  todo : List String
  cancelled : ℕ := 0
  changed : List JobRef := []
  deriving DecidableEq

/-- Where a call is. A call of `cancel` may be made by `cancel_all_non_terminal`. -/
inductive Call where
  | startCleanup
  | startDispatch
  | startFile (job : JobRef)
  | startReturned (job : JobRef)
  | cancelLookUp (all : Option Tally) (jobId : String)
  | cancelCheck (all : Option Tally) (jobId : String) (job : JobRef)
  | cancelWrite (all : Option Tally) (jobId : String) (job : JobRef)
  | cancelReturned (job : Option JobRef)
  | cancelAllSnapshot
  | cancelAllReturned (cancelled : ℕ) (changed : List JobRef)
  deriving DecidableEq

/-- `for job_id in job_ids`: the next call of `cancel`, or the end. -/
def Tally.proceed (tally : Tally) : Call :=
  match tally.todo with
  | [] => .cancelAllReturned tally.cancelled tally.changed
  | jobId :: todo => .cancelLookUp (some { tally with todo := todo }) jobId

/-- `if self.cancel(job_id): cancelled += 1`. -/
def Tally.count (tally : Tally) (returned : Option JobRef) : Tally :=
  match returned with
  | none => tally
  | some _ => { tally with cancelled := tally.cancelled + 1 }

/-- `cancel` returns, to its caller or to the loop. -/
def returnFromCancel (all : Option Tally) (returned : Option JobRef) : Call :=
  match all with
  | none => .cancelReturned returned
  | some tally => (tally.count returned).proceed

/-- The write of `cancel` changes a job that is not cancelled yet. -/
def Tally.write (tally : Tally) (record : Job) (job : JobRef) : Tally :=
  if record.status = .cancelled then tally
  else { tally with changed := tally.changed ++ [job] }

/-- What a step reads from outside: the clock, `uuid.uuid4()`, and whether the thread
has a running event loop. -/
structure Reading where
  now : ℤ
  jobId : String := ""
  loopRunning : Bool := false

/-- `job.status = "cancelled"; job.error = "Cancelled by user"`. -/
def cancelUpdate : JobUpdate :=
  { status := some .cancelled, error := some (some "Cancelled by user") }

/-- `start` creates the job and dispatches its runner, on the running loop or on a
new thread. Only a task of the loop is recorded. -/
def JobManager.dispatch (m : JobManager F) (reading : Reading) : JobManager F :=
  let job := m.objects.length
  { m with
    objects := m.objects ++ [{ jobId := reading.jobId, createdAt := reading.now }]
    tasks := if reading.loopRunning then m.tasks.assign reading.jobId job else m.tasks }

/-- `if task: task.cancel()`. -/
def JobManager.requestCancel (m : JobManager F) (jobId : String) : JobManager F :=
  { m with cancelRequests := m.cancelRequests ++ (m.tasks.get jobId).toList }

/-- One step of a call. -/
def Call.step (m : JobManager F) (reading : Reading) : Call → JobManager F × Call
  | .startCleanup => (m.cleanupExpired reading.now, .startDispatch)
  | .startDispatch => (m.dispatch reading, .startFile m.objects.length)
  | .startFile job => ((m.file job).enforceMaxJobs, .startReturned job)
  | .startReturned job => (m, .startReturned job)
  | .cancelLookUp all jobId =>
      match m.jobs.get jobId with
      | none => (m, returnFromCancel all none)
      | some job => (m, .cancelCheck all jobId job)
  | .cancelCheck all jobId job =>
      match m.objects[job]? with
      | none => (m, .cancelCheck all jobId job)
      | some record =>
          if record.status.terminal then (m, returnFromCancel all (some job))
          else (m.requestCancel jobId, .cancelWrite all jobId job)
  | .cancelWrite all jobId job =>
      match m.objects[job]? with
      | none => (m, .cancelWrite all jobId job)
      | some record =>
          (m.update job cancelUpdate,
            returnFromCancel (all.map fun tally => tally.write record job) (some job))
  | .cancelReturned job => (m, .cancelReturned job)
  | .cancelAllSnapshot => (m, Tally.proceed { todo := m.jobs.keys })
  | .cancelAllReturned cancelled changed => (m, .cancelAllReturned cancelled changed)

/-! ## §5 The system -/

/-- The manager and the calls that its threads have made. -/
structure System (F : Type) where
  manager : JobManager F
  calls : List Call := []

/-- A new manager. -/
def System.init (maxJobs ttlSeconds : ℤ) : System F where
  manager := .init maxJobs ttlSeconds

/-- A step of the system: a caller builds a job object of its own, a method with one
block is called, one of the others is called, or one of these makes its next step. -/
inductive Event (F : Type) where
  | construct (job : Job)
  | update (job : JobRef) (updates : JobUpdate)
  | storeResult (job : JobRef) (bars : List BarDict)
  | storeFrame (job : JobRef) (frame : F)
  | deleteArtifact (jobId : String)
  | cleanupExpired (now : ℤ)
  | start
  | cancel (jobId : String)
  | cancelAllNonTerminal
  | advance (call : ℕ) (reading : Reading)

/-- The system after a step. -/
def System.next (text : PyValue → String) (s : System F) : Event F → System F
  | .construct job => { s with manager.objects := s.manager.objects ++ [job] }
  | .update job updates => { s with manager := s.manager.update job updates }
  | .storeResult job bars => { s with manager := s.manager.storeResult text job bars }
  | .storeFrame job frame => { s with manager := s.manager.storeFrame job frame }
  | .deleteArtifact jobId => { s with manager := (s.manager.deleteArtifact jobId).1 }
  | .cleanupExpired now => { s with manager := s.manager.cleanupExpired now }
  | .start => { s with calls := s.calls ++ [.startCleanup] }
  | .cancel jobId => { s with calls := s.calls ++ [.cancelLookUp none jobId] }
  | .cancelAllNonTerminal => { s with calls := s.calls ++ [.cancelAllSnapshot] }
  | .advance call reading =>
      match s.calls[call]? with
      | none => s
      | some stage =>
          let moved := stage.step s.manager reading
          { manager := moved.1, calls := s.calls.set call moved.2 }

end Finbar.IndicatorJobs.Manager
