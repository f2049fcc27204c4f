/-
Finbar.Pipeline.BacktestTheorems — when the pipeline's jobs are there for its
backtest.

A worker publishes its job in two steps: first the status `completed`, then the
result. In between a reader finds a completed job without a result; a cancelled
job counts as done for the pipeline; and a cancellation or a late exception may
overwrite a status that was read. Along steps that keep to `Orderly`, which rules
these three out, what is read as completed stays completed and has its bars
(`Sound`), and so does every job of a pipeline that reaches its backtest.

No `sorry`, no `axiom`.
-/
import Finbar.Pipeline.Jobs

namespace Finbar.Pipeline

open Lib Lib.Python Lib.Steps Finbar.IndicatorJobs

variable {ι κ H : Type}

/-! ## §1 What a worker has done -/

/-- Among the first operations is the update to `completed`. -/
def Announced (run : WorkerRun H) (count : ℕ) : Prop :=
  ∃ u, WorkerOp.update u ∈ run.ops.take count ∧ u.status = some .completed

/-- Among the first operations is the store of the result. -/
def Stored (run : WorkerRun H) (count : ℕ) : Prop :=
  ∃ bars, WorkerOp.storeResult bars ∈ run.ops.take count

/-- A worker that raises has done the first of all its operations. -/
theorem ops_eq_take (run : WorkerRun H) :
    ∃ count, run.ops = (run.marks.map WorkerOp.update ++ publish run.result).take count := by
  unfold WorkerRun.ops
  cases run.raised with
  | none => exact ⟨_, List.take_length.symm⟩
  | some raised => exact ⟨raised.1, rfl⟩

/-- An operation of a worker is a mark or one of those that publish its result. -/
theorem mem_ops {run : WorkerRun H} {op : WorkerOp} (h : op ∈ run.ops) :
    (∃ u ∈ run.marks, op = .update u) ∨ op ∈ publish run.result := by
  obtain ⟨count, hops⟩ := ops_eq_take run
  rw [hops] at h
  rcases List.mem_append.mp (List.mem_of_mem_take h) with hmark | hpublish
  · obtain ⟨u, hu, rfl⟩ := List.mem_map.mp hmark
    exact .inl ⟨u, hu, rfl⟩
  · exact .inr hpublish

/-- The bars that a worker stores are its result's. -/
theorem result_of_storeResult {run : WorkerRun H} {bars : List BarDict}
    (h : WorkerOp.storeResult bars ∈ run.ops) : ∃ r, run.result = .ok r ∧ r.bars = bars := by
  rcases mem_ops h with ⟨u, -, hu⟩ | hpublish
  · cases hu
  · cases hresult : run.result with
    | error error =>
        rw [hresult] at hpublish
        simp [publish] at hpublish
    | ok r =>
        rw [hresult] at hpublish
        obtain ⟨bars', contentHash, reused⟩ := r
        cases reused <;>
          (simp only [publish, List.mem_cons, WorkerOp.storeResult.injEq, reduceCtorEq,
            List.not_mem_nil, false_or, or_false] at hpublish; exact ⟨_, rfl, hpublish.symm⟩)

/-- Of the operations that publish a result, none after the store is an update. -/
theorem publish_not_update {result : Except Message (JobResult H)} {bars : List BarDict} {n : ℕ}
    (h : WorkerOp.storeResult bars ∈ (publish result).take n) (u : JobUpdate) :
    (publish result)[n]? ≠ some (.update u) := by
  cases result with
  | error error =>
      have hmem := List.mem_of_mem_take h
      simp [publish] at hmem
  | ok r =>
      obtain ⟨bars', contentHash, reused⟩ := r
      cases reused <;> rcases n with _ | _ | _ | _ | n <;> simp [publish] at h ⊢

/-- After the result is stored, a worker updates its job no more. -/
theorem not_update_after_stored {run : WorkerRun H} {count : ℕ} (h : Stored run count)
    (u : JobUpdate) : run.ops[count]? ≠ some (.update u) := by
  obtain ⟨bars, hbars⟩ := h
  obtain ⟨raisedAt, hops⟩ := ops_eq_take run
  intro hop
  rw [hops, List.take_take] at hbars
  rw [hops, List.getElem?_take] at hop
  split at hop
  · have hstored : WorkerOp.storeResult bars
        ∈ (publish run.result).take (count - run.marks.length) := by
      have hmem := List.take_subset_take_left _ (min_le_left count raisedAt) hbars
      rw [List.take_append, List.length_map, ← List.map_take] at hmem
      rcases List.mem_append.mp hmem with hmark | hpublish
      · obtain ⟨u', -, hu'⟩ := List.mem_map.mp hmark
        cases hu'
      · exact hpublish
    have hle : run.marks.length ≤ count := by
      by_contra hlt
      rw [Nat.sub_eq_zero_of_le (not_le.mp hlt).le] at hstored
      cases hstored
    rw [List.getElem?_append_right (by rwa [List.length_map]), List.length_map] at hop
    exact publish_not_update hstored u hop
  · cases hop

/-- The next operation is among the first ones from then on. -/
theorem mem_take_succ {ops : List WorkerOp} {count : ℕ} {op : WorkerOp}
    (h : ops[count]? = some op) {op' : WorkerOp} :
    op' ∈ ops.take (count + 1) ↔ op' ∈ ops.take count ∨ op' = op := by
  rw [List.take_add_one, List.mem_append, h, Option.toList_some, List.mem_singleton]

/-! ## §2 Orderly steps -/

variable {setting : Setting ι H} {s s' : JobSystem ι κ}

/-- The worker has announced its job as completed and not stored the result yet. -/
def JobSystem.Publishing (setting : Setting ι H) (s : JobSystem ι κ) (job : ι) : Prop :=
  ∃ count, s.performed job = some count ∧ Announced (setting.launch job).run count ∧
    ¬Stored (setting.launch job).run count

/-- The job can be read: it is not completed, or its worker has published it. -/
def JobSystem.Readable (setting : Setting ι H) (s : JobSystem ι κ) (job : ι) : Prop :=
  (s.jobs job).status = .completed → ¬s.Publishing setting job

/-- **An orderly step.** No reader comes between the two steps that publish a job,
the pipeline reads no cancelled job, and neither a cancellation nor the handler
of an exception writes to a job that has been read as completed. -/
def JobSystem.Orderly (setting : Setting ι H) (s : JobSystem ι κ) : JobAction ι κ → Prop
  | .begin _ => True
  | .work _ => True
  | .resume job =>
      ∀ u, s.runners job = .awaiting → s.resumption setting job = some (some u) →
        s.readCompleted job = false
  | .look _ job => s.Readable setting job
  | .stop _ => True
  | .mark caller => ∀ job, s.cancels caller = .stopped job → s.readCompleted job = false
  | .read job => s.Readable setting job
  | .poll =>
      ∀ passes job todo allDone error,
        s.pipeline = .rereading passes job todo allDone error →
          s.Readable setting job ∧ (s.jobs job).status ≠ .cancelled

/-! ## §3 What holds along them -/

/-- The job's result is stored, as its worker computed it. -/
def JobSystem.Holds (setting : Setting ι H) (s : JobSystem ι κ) (job : ι) : Prop :=
  ∃ r, (setting.launch job).run.result = .ok r ∧ s.results job = some r.bars

/-- What the pipeline has found out. -/
def PipelineSound (jobIds : List ι) (readCompleted : ι → Bool) : PipelinePhase ι → Prop
  | .polling _ todo allDone error =>
      ∃ polled, jobIds = polled ++ todo ∧
        (allDone = true → error = none → ∀ job ∈ polled, readCompleted job = true)
  | .rereading _ job todo allDone error =>
      ∃ polled, jobIds = polled ++ job :: todo ∧
        (allDone = true → error = none → ∀ job ∈ polled, readCompleted job = true)
  | .waiting _ => True
  | .stopped _ => True
  | .backtest => ∀ job ∈ jobIds, readCompleted job = true

/-- The state agrees with what the workers have done, and with what has been
read. -/
structure JobSystem.Sound (setting : Setting ι H) (s : JobSystem ι κ) : Prop where
  created : ∀ job, s.runners job = .created → s.performed job = none
  announced : ∀ job, (s.jobs job).status = .completed →
    ∃ count, s.performed job = some count ∧ Announced (setting.launch job).run count
  stored : ∀ job count, s.performed job = some count → Stored (setting.launch job).run count →
    s.Holds setting job
  read : ∀ job, s.readCompleted job = true → (s.jobs job).status = .completed ∧
    ∃ count, s.performed job = some count ∧ Stored (setting.launch job).run count
  pipeline : PipelineSound setting.jobIds s.readCompleted s.pipeline

/-- A readable job that is completed has a stored result. -/
theorem JobSystem.Sound.stored_of_readable (h : s.Sound setting) {job : ι}
    (hreadable : s.Readable setting job) (hstatus : (s.jobs job).status = .completed) :
    ∃ count, s.performed job = some count ∧ Stored (setting.launch job).run count := by
  obtain ⟨count, hcount, hannounced⟩ := h.announced job hstatus
  refine ⟨count, hcount, ?_⟩
  by_contra hstored
  exact hreadable hstatus ⟨count, hcount, hannounced, hstored⟩

theorem PipelineSound.mono {jobIds : List ι} {read read' : ι → Bool} {phase : PipelinePhase ι}
    (h : PipelineSound jobIds read phase) (hle : ∀ job, read job = true → read' job = true) :
    PipelineSound jobIds read' phase := by
  cases phase with
  | polling passes todo allDone error =>
      obtain ⟨polled, hsplit, hread⟩ := h
      exact ⟨polled, hsplit, fun hdone herror job hjob => hle job (hread hdone herror job hjob)⟩
  | rereading passes job todo allDone error =>
      obtain ⟨polled, hsplit, hread⟩ := h
      exact ⟨polled, hsplit, fun hdone herror job hjob => hle job (hread hdone herror job hjob)⟩
  | waiting passes => trivial
  | stopped error => trivial
  | backtest => exact fun job hjob => hle job (h job hjob)

/-! ## §4 What a step keeps -/

theorem JobSystem.sound_init (setting : Setting ι H) :
    (JobSystem.init setting : JobSystem ι κ).Sound setting where
  created _ _ := rfl
  announced _ hstatus := nomatch hstatus
  stored _ _ hcount := nomatch hcount
  read _ hread := nomatch hread
  pipeline := ⟨[], rfl, fun _ _ _ hjob => nomatch hjob⟩

/-- Another phase of the coroutines or of the callers of `cancel` changes
nothing. -/
theorem JobSystem.Sound.congr (h : s.Sound setting) (hjobs : s'.jobs = s.jobs)
    (hresults : s'.results = s.results) (hperformed : s'.performed = s.performed)
    (hread : s'.readCompleted = s.readCompleted) (hpipeline : s'.pipeline = s.pipeline)
    (hrunners : ∀ job, s'.runners job = .created → s.runners job = .created) :
    s'.Sound setting where
  created job hjob := by
    rw [hperformed]
    exact h.created job (hrunners job hjob)
  announced job := by
    rw [hjobs, hperformed]
    exact h.announced job
  stored job count := by
    unfold JobSystem.Holds
    rw [hresults, hperformed]
    exact h.stored job count
  read job := by
    rw [hread, hjobs, hperformed]
    exact h.read job
  pipeline := by
    rw [hread, hpipeline]
    exact h.pipeline

/-- The pipeline moves on. -/
theorem JobSystem.Sound.setPipeline (h : s.Sound setting) {phase : PipelinePhase ι}
    (hphase : PipelineSound setting.jobIds s.readCompleted phase) :
    JobSystem.Sound setting { s with pipeline := phase } :=
  { h with pipeline := hphase }

/-- A coroutine that resumes never reports a completion of its own. -/
theorem status_of_resumption {job : ι} {u : JobUpdate}
    (h : s.resumption setting job = some (some u)) :
    ∃ status, u.status = some status ∧ status ≠ .completed := by
  unfold JobSystem.resumption at h
  split at h
  · obtain rfl := Option.some.inj (Option.some.inj h)
    exact ⟨.cancelled, rfl, by decide⟩
  · split at h
    · cases h
    · split at h
      · cases h
      · split at h
        · obtain rfl := Option.some.inj (Option.some.inj h)
          exact ⟨.failed, rfl, by decide⟩
        · cases h

section Steps

variable [DecidableEq ι]

/-- A coroutine that has ended is not about to begin. -/
theorem created_of_update_runners {runners : ι → RunnerPhase} {job job' : ι}
    (h : Function.update runners job .finished job' = .created) : runners job' = .created := by
  by_cases heq : job' = job
  · rw [heq, Function.update_self] at h
    cases h
  · rwa [Function.update_of_ne heq] at h

/-- A cancellation, or the handler of an exception, writes to a job that has not
been read as completed. -/
theorem JobSystem.Sound.updateJob (h : s.Sound setting) {job : ι} {u : JobUpdate}
    {status : JobStatus} (hstatus : u.status = some status) (hne : status ≠ .completed)
    (hread : s.readCompleted job = false) : (s.updateJob job u).Sound setting where
  created := h.created
  announced job' hcompleted := by
    refine h.announced job' ?_
    by_cases heq : job' = job
    · rw [heq] at hcompleted
      simp only [JobSystem.updateJob, Function.update_self, JobState.update, hstatus,
        Option.getD_some] at hcompleted
      exact absurd hcompleted hne
    · simpa only [JobSystem.updateJob, Function.update_of_ne heq] using hcompleted
  stored := h.stored
  read job' hjob' := by
    have hne' : job' ≠ job := by
      rintro rfl
      rw [JobSystem.updateJob, hread] at hjob'
      cases hjob'
    simpa only [JobSystem.updateJob, Function.update_of_ne hne'] using h.read job' hjob'
  pipeline := h.pipeline

/-- A read of a readable job. -/
theorem JobSystem.Sound.noteRead (h : s.Sound setting) {job : ι}
    (hreadable : s.Readable setting job) : (s.noteRead job).Sound setting := by
  unfold JobSystem.noteRead
  split
  · rename_i hstatus
    refine { h with read := ?_, pipeline := ?_ }
    · intro job' hjob'
      dsimp only at hjob' ⊢
      by_cases heq : job' = job
      · rw [heq]
        exact ⟨hstatus, h.stored_of_readable hreadable hstatus⟩
      · rw [Function.update_of_ne heq] at hjob'
        exact h.read job' hjob'
    · refine h.pipeline.mono fun job' hjob' => ?_
      dsimp only
      by_cases heq : job' = job
      · rw [heq, Function.update_self]
      · rwa [Function.update_of_ne heq]
  · exact h

/-- The thread of a job begins. -/
theorem JobSystem.Sound.begin (h : s.Sound setting) {job : ι}
    (hcreated : s.runners job = .created) :
    JobSystem.Sound setting { s with
      runners := Function.update s.runners job .awaiting
      performed := Function.update s.performed job (some 0) } := by
  have hnone := h.created job hcreated
  have hother : ∀ job' count, s.performed job' = some count →
      Function.update s.performed job (some 0) job' = some count := by
    intro job' count hcount
    have hne : job' ≠ job := by
      rintro rfl
      rw [hnone] at hcount
      cases hcount
    rwa [Function.update_of_ne hne]
  refine { created := ?_, announced := ?_, stored := ?_, read := ?_, pipeline := h.pipeline }
  · intro job' hjob'
    dsimp only at hjob' ⊢
    have hne : job' ≠ job := by
      rintro rfl
      rw [Function.update_self] at hjob'
      cases hjob'
    rw [Function.update_of_ne hne] at hjob' ⊢
    exact h.created job' hjob'
  · intro job' hstatus
    obtain ⟨count, hcount, hannounced⟩ := h.announced job' hstatus
    exact ⟨count, hother job' count hcount, hannounced⟩
  · intro job' count hcount hstored
    dsimp only at hcount
    by_cases heq : job' = job
    · rw [heq, Function.update_self] at hcount
      obtain rfl := Option.some.inj hcount
      obtain ⟨bars, hbars⟩ := hstored
      cases hbars
    · rw [Function.update_of_ne heq] at hcount
      exact h.stored job' count hcount hstored
  · intro job' hjob'
    obtain ⟨hstatus, count, hcount, hstored⟩ := h.read job' hjob'
    exact ⟨hstatus, count, hother job' count hcount, hstored⟩

/-- An operation of a worker leaves the fields that the others own. -/
theorem JobSystem.perform_frame (persists : Bool) (s : JobSystem ι κ) (job : ι) (op : WorkerOp) :
    (s.perform persists job op).runners = s.runners ∧
    (s.perform persists job op).readCompleted = s.readCompleted ∧
    (s.perform persists job op).pipeline = s.pipeline ∧
    ∀ job', job' ≠ job → (s.perform persists job op).jobs job' = s.jobs job' ∧
      (s.perform persists job op).results job' = s.results job' := by
  cases op with
  | update u =>
      refine ⟨rfl, rfl, rfl, fun job' hne => ⟨?_, rfl⟩⟩
      simp only [JobSystem.perform, JobSystem.updateJob, Function.update_of_ne hne]
  | storeFrame => exact ⟨rfl, rfl, rfl, fun _ _ => ⟨rfl, rfl⟩⟩
  | storeResult bars =>
      refine ⟨rfl, rfl, rfl, fun job' hne => ?_⟩
      simp only [JobSystem.perform, Function.update_of_ne hne, and_self]
  | persist bars =>
      unfold JobSystem.perform
      dsimp only
      split
      · exact ⟨rfl, rfl, rfl, fun _ _ => ⟨rfl, rfl⟩⟩
      · exact ⟨rfl, rfl, rfl, fun _ _ => ⟨rfl, rfl⟩⟩

/-- The status that an operation leaves: that of an update with one, or the old. -/
theorem JobSystem.perform_status (persists : Bool) (s : JobSystem ι κ) (job : ι) (op : WorkerOp) :
    ((s.perform persists job op).jobs job).status
      = match op with
        | .update u => u.status.getD (s.jobs job).status
        | _ => (s.jobs job).status := by
  cases op with
  | update u => simp only [JobSystem.perform, JobSystem.updateJob, Function.update_self,
      JobState.update]
  | storeFrame => rfl
  | storeResult bars => simp only [JobSystem.perform, Function.update_self]
  | persist bars =>
      unfold JobSystem.perform
      dsimp only
      split
      · rfl
      · rfl

/-- The result that an operation leaves: that of a store, or the old. -/
theorem JobSystem.perform_results (persists : Bool) (s : JobSystem ι κ) (job : ι) (op : WorkerOp) :
    (s.perform persists job op).results job
      = match op with
        | .storeResult bars => some bars
        | _ => s.results job := by
  cases op with
  | update u => rfl
  | storeFrame => rfl
  | storeResult bars => simp only [JobSystem.perform, Function.update_self]
  | persist bars =>
      unfold JobSystem.perform
      dsimp only
      split
      · rfl
      · rfl

/-- A job that is completed after an operation has announced itself: with the operation, or
before it. -/
theorem JobSystem.Sound.announced_perform (h : s.Sound setting) {job : ι} {count : ℕ}
    (hcount : s.performed job = some count) {op : WorkerOp}
    (hop : (setting.launch job).run.ops[count]? = some op)
    (hstatus : ((s.perform setting.persists job op).jobs job).status = .completed) :
    Announced (setting.launch job).run (count + 1) := by
  rw [JobSystem.perform_status] at hstatus
  have hbefore : (s.jobs job).status = .completed →
      Announced (setting.launch job).run (count + 1) := by
    intro hold
    obtain ⟨count', hcount', u, hu, hcompleted⟩ := h.announced job hold
    obtain rfl := Option.some.inj (hcount.symm.trans hcount')
    exact ⟨u, (mem_take_succ hop).mpr (.inl hu), hcompleted⟩
  cases op with
  | update u =>
      dsimp only at hstatus
      cases hu : u.status with
      | none =>
          rw [hu] at hstatus
          exact hbefore hstatus
      | some status =>
          rw [hu, Option.getD_some] at hstatus
          exact ⟨u, (mem_take_succ hop).mpr (.inr rfl), by rw [hu, hstatus]⟩
  | storeFrame => exact hbefore hstatus
  | storeResult bars => exact hbefore hstatus
  | persist bars => exact hbefore hstatus

/-- A job that has stored its result after an operation holds it: by the operation, or from
before it. -/
theorem JobSystem.Sound.holds_perform (h : s.Sound setting) {job : ι} {count : ℕ}
    (hcount : s.performed job = some count) {op : WorkerOp}
    (hop : (setting.launch job).run.ops[count]? = some op)
    (hstored : Stored (setting.launch job).run (count + 1)) :
    (s.perform setting.persists job op).Holds setting job := by
  unfold JobSystem.Holds
  rw [JobSystem.perform_results]
  obtain ⟨bars, hbars⟩ := hstored
  have hbefore : WorkerOp.storeResult bars ≠ op → s.Holds setting job := by
    intro hne
    exact h.stored job count hcount ⟨bars, ((mem_take_succ hop).mp hbars).resolve_right hne⟩
  cases op with
  | update u => exact hbefore (by simp)
  | storeFrame => exact hbefore (by simp)
  | storeResult bars' =>
      obtain ⟨r, hresult, hr⟩ := result_of_storeResult (List.mem_of_getElem? hop)
      exact ⟨r, hresult, congrArg some hr.symm⟩
  | persist bars' => exact hbefore (by simp)

/-- A job that was read as completed stays so: an update after the store would undo what was
read, but there is none. -/
theorem JobSystem.Sound.completed_perform (h : s.Sound setting) {job : ι} {count : ℕ}
    (hcount : s.performed job = some count) {op : WorkerOp}
    (hop : (setting.launch job).run.ops[count]? = some op) (hread : s.readCompleted job = true) :
    ((s.perform setting.persists job op).jobs job).status = .completed ∧
      Stored (setting.launch job).run (count + 1) := by
  obtain ⟨hstatus, count', hcount', bars, hbars⟩ := h.read job hread
  obtain rfl := Option.some.inj (hcount.symm.trans hcount')
  refine ⟨?_, bars, (mem_take_succ hop).mpr (.inl hbars)⟩
  rw [JobSystem.perform_status]
  cases op with
  | update u => exact absurd hop (not_update_after_stored ⟨bars, hbars⟩ u)
  | storeFrame => exact hstatus
  | storeResult bars' => exact hstatus
  | persist bars' => exact hstatus

/-- **One operation of a worker.** Nothing changes for the other jobs. -/
theorem JobSystem.Sound.work (h : s.Sound setting) {job : ι} {count : ℕ}
    (hcount : s.performed job = some count) {op : WorkerOp}
    (hop : (setting.launch job).run.ops[count]? = some op) :
    JobSystem.Sound setting { s.perform setting.persists job op with
      performed := Function.update s.performed job (some (count + 1)) } := by
  obtain ⟨hrunners, hread, hpipeline, hothers⟩ := s.perform_frame setting.persists job op
  have hperformed : ∀ job', job' ≠ job →
      Function.update s.performed job (some (count + 1)) job' = s.performed job' :=
    fun job' hne => Function.update_of_ne hne _ _
  have hself : Function.update s.performed job (some (count + 1)) job = some (count + 1) :=
    Function.update_self _ _ _
  refine { created := ?_, announced := ?_, stored := ?_, read := ?_, pipeline := ?_ }
  · intro job' hjob'
    dsimp only at hjob' ⊢
    rw [hrunners] at hjob'
    have hnone := h.created job' hjob'
    have hne : job' ≠ job := by
      rintro rfl
      rw [hcount] at hnone
      cases hnone
    rwa [hperformed job' hne]
  · intro job' hstatus
    dsimp only at hstatus ⊢
    by_cases heq : job' = job
    · subst heq
      exact ⟨count + 1, hself, h.announced_perform hcount hop hstatus⟩
    · rw [(hothers job' heq).1] at hstatus
      rw [hperformed job' heq]
      exact h.announced job' hstatus
  · intro job' count' hcount' hstored
    dsimp only at hcount'
    by_cases heq : job' = job
    · subst heq
      obtain rfl := Option.some.inj (hself.symm.trans hcount')
      exact h.holds_perform hcount hop hstored
    · unfold JobSystem.Holds
      rw [(hothers job' heq).2]
      rw [hperformed job' heq] at hcount'
      exact h.stored job' count' hcount' hstored
  · intro job' hjob'
    dsimp only at hjob' ⊢
    rw [hread] at hjob'
    by_cases heq : job' = job
    · subst heq
      obtain ⟨hstatus, hstored⟩ := h.completed_perform hcount hop hjob'
      exact ⟨hstatus, count + 1, hself, hstored⟩
    · rw [(hothers job' heq).1, hperformed job' heq]
      exact h.read job' hjob'
  · dsimp only
    rw [hread, hpipeline]
    exact h.pipeline

theorem noteRead_readCompleted (s : JobSystem ι κ) {job : ι}
    (hstatus : (s.jobs job).status = .completed) : (s.noteRead job).readCompleted job = true := by
  unfold JobSystem.noteRead
  rw [if_pos hstatus]
  exact Function.update_self _ _ _

theorem noteRead_mono (s : JobSystem ι κ) (job : ι) {job' : ι}
    (h : s.readCompleted job' = true) : (s.noteRead job).readCompleted job' = true := by
  unfold JobSystem.noteRead
  split
  · by_cases heq : job' = job
    · rw [heq]
      exact Function.update_self _ _ _
    · dsimp only
      rwa [Function.update_of_ne heq]
  · exact h

/-- **One step of the pipeline.** A job that it counts as done is completed, and
so readable as such. -/
theorem JobSystem.Sound.poll (h : s.Sound setting)
    (horderly : ∀ passes job todo allDone error,
      s.pipeline = .rereading passes job todo allDone error →
        s.Readable setting job ∧ (s.jobs job).status ≠ .cancelled) :
    (s.poll setting.jobIds).Sound setting := by
  have hpipeline := h.pipeline
  unfold JobSystem.poll
  cases hphase : s.pipeline with
  | polling passes todo allDone error =>
      rw [hphase] at hpipeline
      obtain ⟨polled, hsplit, hread⟩ := hpipeline
      cases todo with
      | nil =>
          cases error with
          | some error => exact h.setPipeline trivial
          | none =>
              dsimp only
              split
              · rename_i hdone
                refine h.setPipeline fun job hjob => hread hdone rfl job ?_
                rwa [hsplit, List.append_nil] at hjob
              · split
                · exact h.setPipeline trivial
                · exact h.setPipeline trivial
      | cons job todo =>
          dsimp only
          split
          · refine h.setPipeline ⟨polled ++ [job], by simpa using hsplit, ?_⟩
            intro _ herror
            cases herror
          · exact h.setPipeline ⟨polled, hsplit, hread⟩
  | rereading passes job todo allDone error =>
      rw [hphase] at hpipeline
      obtain ⟨polled, hsplit, hread⟩ := hpipeline
      obtain ⟨hreadable, hcancelled⟩ := horderly _ _ _ _ _ hphase
      refine (h.noteRead hreadable).setPipeline ⟨polled ++ [job], by simpa using hsplit, ?_⟩
      intro hdone herror job' hjob'
      obtain ⟨hallDone, hstatus⟩ := Bool.and_eq_true_iff.mp hdone
      have hcompleted := (of_decide_eq_true hstatus).resolve_right hcancelled
      rcases List.mem_append.mp hjob' with hpolled | hself
      · exact noteRead_mono s job (hread hallDone herror job' hpolled)
      · rw [List.mem_singleton.mp hself]
        exact noteRead_readCompleted s hcompleted
  | waiting passes => exact h.setPipeline ⟨[], rfl, fun _ _ _ hjob => nomatch hjob⟩
  | stopped error => exact h
  | backtest => exact h

variable [DecidableEq κ]

/-- **The step lemma.** -/
theorem JobSystem.Sound.step (h : s.Sound setting) {a : JobAction ι κ}
    (horderly : s.Orderly setting a) : (s.step setting a).Sound setting := by
  cases a with
  | begin job =>
      unfold JobSystem.step
      dsimp only
      split
      · rename_i hrunner
        split
        · exact h.congr rfl rfl rfl rfl rfl fun _ => created_of_update_runners
        · exact h.begin hrunner
      · exact h
  | work job =>
      unfold JobSystem.step
      dsimp only
      split
      · exact h
      · rename_i count hcount
        split
        · exact h
        · rename_i op hop
          exact h.work hcount hop
  | resume job =>
      unfold JobSystem.step
      dsimp only
      split
      · rename_i u hrunner hresumption
        have hread := horderly u hrunner hresumption
        obtain ⟨status, hstatus, hne⟩ := status_of_resumption hresumption
        exact (h.updateJob hstatus hne hread).congr rfl rfl rfl rfl rfl
          (fun _ => created_of_update_runners)
      · exact h.congr rfl rfl rfl rfl rfl (fun _ => created_of_update_runners)
      · exact h
  | look caller job =>
      unfold JobSystem.step
      dsimp only
      split
      · split
        · exact h.noteRead horderly
        · exact h.congr rfl rfl rfl rfl rfl fun _ hjob => hjob
      · exact h
  | stop caller =>
      unfold JobSystem.step
      dsimp only
      split
      · exact h.congr rfl rfl rfl rfl rfl fun _ hjob => hjob
      · exact h
  | mark caller =>
      unfold JobSystem.step
      dsimp only
      split
      · rename_i job hcancel
        have hread := horderly job hcancel
        exact (h.updateJob (u := cancelledUpdate) rfl (by decide) hread).congr rfl rfl rfl rfl rfl
          fun _ hjob => hjob
      · exact h
  | read job => exact h.noteRead horderly
  | poll => exact h.poll horderly

/-- The run lemma. -/
theorem sound_run {actions : List (JobAction ι κ)}
    (h : Along (JobSystem.step setting) (JobSystem.Orderly setting) (JobSystem.init setting)
      actions) :
    (run (JobSystem.step setting) (JobSystem.init setting) actions).Sound setting :=
  h.invariant (fun _ _ hs horderly => hs.step horderly) (JobSystem.sound_init setting)

end Steps

/-! ## §5 The backtest -/

/-- Every job of a pipeline in its backtest is completed, and has its bars. -/
def JobSystem.BacktestReady (setting : Setting ι H) (s : JobSystem ι κ) : Prop :=
  s.pipeline = .backtest → ∀ job ∈ setting.jobIds, (s.jobs job).status = .completed ∧
    ∃ r, (setting.launch job).run.result = .ok r ∧ s.getArtifactBars job = some r.bars

/-- Every job that was read as completed has its bars. -/
def JobSystem.ReadersServed (setting : Setting ι H) (s : JobSystem ι κ) : Prop :=
  ∀ job, s.readCompleted job = true →
    ∃ r, (setting.launch job).run.result = .ok r ∧ s.getArtifactBars job = some r.bars

theorem JobSystem.Sound.readersServed (h : s.Sound setting) : s.ReadersServed setting := by
  intro job hread
  obtain ⟨-, count, hcount, hstored⟩ := h.read job hread
  obtain ⟨r, hresult, hbars⟩ := h.stored job count hcount hstored
  refine ⟨r, hresult, ?_⟩
  unfold JobSystem.getArtifactBars
  rw [hbars, Option.some_or]

theorem JobSystem.Sound.backtestReady (h : s.Sound setting) : s.BacktestReady setting := by
  intro hphase job hjob
  have hpipeline := h.pipeline
  rw [hphase] at hpipeline
  exact ⟨(h.read job (hpipeline job hjob)).1, h.readersServed job (hpipeline job hjob)⟩

/-- **A pipeline in its backtest has its jobs.** In every state of a run of
orderly steps, the jobs of a pipeline in its backtest are completed and have their
bars, and so has every job that anyone has read as completed. -/
theorem backtestReady_of_orderly [DecidableEq ι] [DecidableEq κ]
    {actions : List (JobAction ι κ)}
    (h : Along (JobSystem.step setting) (JobSystem.Orderly setting) (JobSystem.init setting)
      actions) (count : ℕ) :
    (run (JobSystem.step setting) (JobSystem.init setting)
      (actions.take count)).BacktestReady setting ∧
    (run (JobSystem.step setting) (JobSystem.init setting)
      (actions.take count)).ReadersServed setting :=
  have hsound := sound_run (h.take count)
  ⟨hsound.backtestReady, hsound.readersServed⟩

/-- A pipeline of one job, which computes one bar. -/
def oneJob : Setting String Unit where
  launch _ :=
    { run :=
        { marks := [markUpdate 5 "query_cached_prices" { template := "Loading cached bars" }]
          marks_open := fun _ hu => .inr (congrArg JobUpdate.status (List.mem_singleton.mp hu))
          result := .ok { bars := [{}], contentHash := (), reused := false } } }
  jobIds := ["primary"]
  persists := true

/-- A run of the job and its pipeline: the worker publishes the job before the
pipeline reads it. -/
def orderlyActions : List (JobAction String Unit) :=
  [.begin "primary", .work "primary", .work "primary", .work "primary", .work "primary",
    .work "primary", .resume "primary", .poll, .poll, .poll]

theorem backtestReady_of_orderly_oneJob :
    (run (JobSystem.step oneJob) (JobSystem.init oneJob : JobSystem String Unit)
        orderlyActions).pipeline = .backtest ∧
    (run (JobSystem.step oneJob) (JobSystem.init oneJob) orderlyActions).BacktestReady oneJob := by
  have halong : Along (JobSystem.step oneJob) (JobSystem.Orderly oneJob)
      (JobSystem.init oneJob : JobSystem String Unit) orderlyActions := by
    refine ⟨trivial, trivial, trivial, trivial, trivial, trivial, ?_, ?_, ?_, ?_, trivial⟩
    · intro u _ hresumption
      cases hresumption
    · intro passes job todo allDone error hphase
      cases hphase
    · intro passes job todo allDone error hphase
      obtain rfl := (PipelinePhase.rereading.inj hphase).2.1
      refine ⟨fun _ => ?_, by decide⟩
      rintro ⟨count, hcount, -, hnot⟩
      obtain rfl : 5 = count := Option.some.inj hcount
      exact hnot ⟨[{}], by simp [oneJob, WorkerRun.ops, publish]⟩
    · intro passes job todo allDone error hphase
      cases hphase
  exact ⟨rfl, (backtestReady_of_orderly halong 10).1⟩

/-- **A job read between its two steps.** The worker has announced its job as
completed; the pipeline goes on to its backtest, and there are no bars. It goes
on to its backtest after a cancelled job as well. -/
theorem backtest_without_bars :
    (let s := run (JobSystem.step oneJob) (JobSystem.init oneJob : JobSystem String Unit)
        [.begin "primary", .work "primary", .work "primary", .poll, .poll, .poll]
     s.pipeline = .backtest ∧ (s.jobs "primary").status = .completed ∧
      s.readCompleted "primary" = true ∧ s.getArtifactBars "primary" = none) ∧
    let s := run (JobSystem.step oneJob) (JobSystem.init oneJob : JobSystem String Unit)
      [.begin "primary", .look () "primary", .stop (), .mark (), .poll, .poll, .poll]
    s.pipeline = .backtest ∧ (s.jobs "primary").status = .cancelled ∧
      s.getArtifactBars "primary" = none :=
  ⟨⟨rfl, rfl, rfl, rfl⟩, rfl, rfl, rfl⟩

end Finbar.Pipeline
