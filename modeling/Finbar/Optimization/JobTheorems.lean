/-
Finbar.Optimization.JobTheorems — terminal statuses of optimization jobs.

The manager's `cancel` looks at the status before it writes one, and the
worker threads do not; a status that the runner writes after a cancellation,
or while one is under way, therefore changes a terminal status.
`terminal_stays_of_undisturbed` shows that nothing else does: in every run
without such a write, of either runner, a terminal status stays and the
results and the error of the job agree with it.

No `sorry`, no `axiom`.
-/
import Finbar.Optimization.Jobs
import Finbar.Optimization.RankingTheorems

namespace Finbar.Optimization

open Lib Lib.Python Finbar.Backtest

/-! ## §1 What a worker issues -/

/-- An update that leaves the job open: no terminal status, no outcome. -/
structure JobUpdate.IsProgress (u : JobUpdate) : Prop where
  status : u.status = none ∨ u.status = some .running
  results : u.results = none
  error : u.error = none
  walkForwardResult : u.walkForwardResult = none

/-- An update that ends the job: completed without an error, or failed without
results. -/
structure JobUpdate.IsFinal (u : JobUpdate) : Prop where
  status : u.status = some .completed ∨ u.status = some .failed
  completed : u.status = some .completed → u.error = none
  failed : u.status = some .failed → u.results = none ∧ u.walkForwardResult = none

/-- What a worker has left to do: updates that leave the job open, and one
last update that ends it if the worker does not raise. -/
inductive Shaped (raised : Option PyError) : List JobUpdate → Prop
  | done : Shaped raised []
  | final {u : JobUpdate} (hu : u.IsFinal) (hraised : raised = none) : Shaped raised [u]
  | progress {u : JobUpdate} {us : List JobUpdate} (hu : u.IsProgress) (hus : Shaped raised us) :
      Shaped raised (u :: us)

variable {raised : Option PyError} {us : List JobUpdate}

theorem Shaped.append (hus : ∀ u ∈ us, u.IsProgress) {us' : List JobUpdate}
    (h : Shaped raised us') : Shaped raised (us ++ us') := by
  induction us with
  | nil => exact h
  | cons u us ih =>
      exact .progress (hus u List.mem_cons_self)
        (ih fun v hv => hus v (List.mem_cons_of_mem u hv))

theorem failedUpdate_isFinal (message : Message) : (failedUpdate message).IsFinal where
  status := .inr rfl
  completed := nofun
  failed _ := ⟨rfl, rfl⟩

theorem combinationProgress_isProgress (n idx : ℕ) : (combinationProgress n idx).IsProgress :=
  ⟨.inl rfl, rfl, rfl, rfl⟩

theorem foldProgress_isProgress (executable n runsDone idx : ℕ) :
    (foldProgress executable n runsDone idx).IsProgress :=
  ⟨.inl rfl, rfl, rfl, rfl⟩

variable {D δ ι σ : Type} [LinearOrder ι]

theorem GridSearchOptimizer.syncRun_shaped (env : RunnerDeps D δ ι σ) (request : JobRequest D) :
    Shaped (GridSearchOptimizer.syncRun env request).raised
      (GridSearchOptimizer.syncRun env request).updates := by
  unfold GridSearchOptimizer.syncRun
  split
  · exact .done
  · split
    · exact .final (failedUpdate_isFinal _) rfl
    · dsimp only
      split
      · exact .final (failedUpdate_isFinal _) rfl
      · split
        · exact .progress ⟨.inr rfl, rfl, rfl, rfl⟩ .done
        · refine .progress ⟨.inr rfl, rfl, rfl, rfl⟩ (Shaped.append ?_ (.final ?_ rfl))
          · intro u hu
            obtain ⟨idx, -, rfl⟩ := List.mem_map.mp hu
            exact combinationProgress_isProgress _ idx
          · exact ⟨.inl rfl, fun _ => rfl, nofun⟩

theorem WalkForwardOptimizer.syncRun_shaped (env : RunnerDeps D δ ι σ)
    (request : JobRequest D) :
    Shaped (WalkForwardOptimizer.syncRun env request).raised
      (WalkForwardOptimizer.syncRun env request).updates := by
  unfold WalkForwardOptimizer.syncRun
  dsimp only
  split
  · exact .done
  · split
    · exact .final (failedUpdate_isFinal _) rfl
    · refine .progress ⟨.inr rfl, rfl, rfl, rfl⟩ (Shaped.append ?_ (.final ?_ rfl))
      · intro u hu
        obtain ⟨runsDone, hlt, rfl⟩ := List.mem_mapIdx.mp hu
        exact foldProgress_isProgress _ _ runsDone _
      · exact ⟨.inl rfl, fun _ => rfl, nofun⟩

/-! ## §2 Undisturbed steps -/

variable {κ : Type} {launch : Launch} {s : JobSystem κ} {a : JobAction κ}

/-- The status that the runner, in its thread or in its coroutine, is about to
write: that of the worker's next update, and the failure of a worker that
raised. -/
def JobSystem.announced (launch : Launch) (s : JobSystem κ) : JobAction κ → Option JobStatus
  | .work =>
      match s.worker with
      | .working (u :: _) => u.status
      | _ => none
  | .resume =>
      match s.runner, s.cancelRequested, s.worker, launch.run.raised with
      | .awaiting, false, .ended, some _ => some .failed
      | _, _, _, _ => none
  | _ => none

/-- The runner writes no status to a cancelled job, and no terminal status
while a cancellation is under way. -/
def JobSystem.Undisturbed (launch : Launch) (s : JobSystem κ) (a : JobAction κ) : Prop :=
  ∀ status ∈ s.announced launch a, s.job.status ≠ .cancelled ∧
    (status.terminal = true → (∀ c, s.cancels c = .idle) ∧ s.cancelRequested = false)

/-- A step is undisturbed where nobody has asked to cancel the job. -/
theorem undisturbed_of_quiet (hidle : ∀ c, s.cancels c = .idle)
    (hrequested : s.cancelRequested = false) (hstatus : s.job.status ≠ .cancelled) :
    s.Undisturbed launch a :=
  fun _ _ => ⟨hstatus, fun _ => ⟨hidle, hrequested⟩⟩

/-- The results and the error agree with the status. -/
structure OptimizationJob.Consistent (job : OptimizationJob) : Prop where
  cancelled : job.status = .cancelled → job.results = [] ∧ job.walkForwardResult = none
  failed : job.status = .failed → job.results = [] ∧ job.walkForwardResult = none
  completed : job.status = .completed → job.error = none

/-- The runner has ended the job: it writes nothing more, and no cancellation
is under way. -/
structure JobSystem.Settled (launch : Launch) (s : JobSystem κ) : Prop where
  idle : ∀ c, s.cancels c = .idle
  notRequested : s.cancelRequested = false
  begun : s.runner ≠ .created
  written : s.worker = .working [] ∨ s.worker = .ended
  noFailure : launch.run.raised = none ∨ s.runner = .finished

/-- The invariant of undisturbed runs. -/
structure JobSystem.Sound (launch : Launch) (s : JobSystem κ) : Prop where
  shaped : ∀ us, s.worker = .working us → Shaped launch.run.raised us
  unstarted : s.runner = .created → s.worker = .unstarted
  unfinished : s.job.status.terminal = false →
    s.job.results = [] ∧ s.job.walkForwardResult = none ∧ s.job.error = none
  settled : s.job.status = .completed ∨ s.job.status = .failed → s.Settled launch
  consistent : s.job.Consistent

/-- A job without results that no runner has ended: it is open or cancelled. -/
theorem JobSystem.Sound.not_settled (h : s.Sound launch) (hs : ¬ s.Settled launch) :
    s.job.status.terminal = false ∨ s.job.status = .cancelled := by
  cases hstatus : s.job.status with
  | queued => exact .inl rfl
  | running => exact .inl rfl
  | completed => exact absurd (h.settled (.inl hstatus)) hs
  | failed => exact absurd (h.settled (.inr hstatus)) hs
  | cancelled => exact .inr rfl

theorem JobSystem.Sound.no_results (h : s.Sound launch) (hs : ¬ s.Settled launch) :
    s.job.results = [] ∧ s.job.walkForwardResult = none := by
  rcases h.not_settled hs with hopen | hcancelled
  · exact ⟨(h.unfinished hopen).1, (h.unfinished hopen).2.1⟩
  · exact h.consistent.cancelled hcancelled

/-- Before a step of the runner that may write a status, it has not ended the
job, so a status that the job must not be cancelled for finds it open. -/
theorem JobSystem.Sound.isOpen (h : s.Sound launch) (hs : ¬ s.Settled launch)
    (hstatus : s.job.status ≠ .cancelled) : s.job.status.terminal = false :=
  (h.not_settled hs).resolve_right hstatus

theorem not_settled_of_working {u : JobUpdate} (h : s.worker = .working (u :: us)) :
    ¬ s.Settled launch := by
  intro hs
  rcases hs.written with hw | hw <;> rw [h] at hw <;> simp at hw

theorem not_settled_of_created (h : s.runner = .created) :
    ¬ s.Settled launch :=
  fun hs => hs.begun h

theorem not_settled_of_requested (h : s.cancelRequested = true) : ¬ s.Settled launch := by
  intro hs
  rw [hs.notRequested] at h
  cases h

theorem not_settled_of_cancels {c : κ} (h : s.cancels c ≠ .idle) : ¬ s.Settled launch :=
  fun hs => h (hs.idle c)

/-! ## §3 One step -/

/-- What an undisturbed step does to the job: nothing, a cancellation that no
ended job meets, a write that leaves the job open, or the write that ends it. -/
inductive JobSystem.Effect (launch : Launch) (s s' : JobSystem κ) : Prop
  | quiet (hjob : s'.job = s.job)
      (hsettled : s.job.status = .completed ∨ s.job.status = .failed → s'.Settled launch)
  | cancelled (hs : ¬ s.Settled launch) (hjob : s'.job = s.job.update cancelledUpdate)
  | progress {u : JobUpdate} (hs : ¬ s.Settled launch) (hu : u.IsProgress)
      (hopen : u.status = none ∨ s.job.status.terminal = false) (hjob : s'.job = s.job.update u)
  | final {u : JobUpdate} (hu : u.IsFinal) (hopen : s.job.status.terminal = false)
      (hjob : s'.job = s.job.update u) (hsettled : s'.Settled launch)

/-- A terminal status stays. -/
theorem JobSystem.Sound.status_of_effect {s' : JobSystem κ} (h : s.Sound launch)
    (he : s.Effect launch s') (hterminal : s.job.status.terminal = true) :
    s'.job.status = s.job.status := by
  cases he with
  | quiet hjob _ => rw [hjob]
  | cancelled hs hjob =>
      rcases h.not_settled hs with hopen | hcancelled
      · rw [hopen] at hterminal
        cases hterminal
      · rw [hjob, hcancelled]
        rfl
  | progress hs hu hopen hjob =>
      rcases hopen with hnone | hopen
      · rw [hjob, OptimizationJob.update, hnone]
        rfl
      · rw [hopen] at hterminal
        cases hterminal
  | final hu hopen hjob hsettled =>
      rw [hopen] at hterminal
      cases hterminal

/-- An open job has no outcome yet. -/
theorem JobSystem.Sound.unfinished_of_effect {s' : JobSystem κ} (h : s.Sound launch)
    (he : s.Effect launch s') (hopen' : s'.job.status.terminal = false) :
    s'.job.results = [] ∧ s'.job.walkForwardResult = none ∧ s'.job.error = none := by
  cases he with
  | quiet hjob _ =>
      rw [hjob] at hopen' ⊢
      exact h.unfinished hopen'
  | cancelled hs hjob =>
      rw [hjob] at hopen'
      cases hopen'
  | progress hs hu hopen hjob =>
      have hbefore : s.job.status.terminal = false := by
        rcases hopen with hnone | hopen
        · rw [hjob, OptimizationJob.update, hnone] at hopen'
          exact hopen'
        · exact hopen
      rw [hjob, OptimizationJob.update, hu.results, hu.walkForwardResult, hu.error]
      exact h.unfinished hbefore
  | final hu hopen hjob hsettled =>
      rw [hjob, OptimizationJob.update] at hopen'
      rcases hu.status with hstatus | hstatus <;> rw [hstatus] at hopen' <;> cases hopen'

/-- The job that a runner has ended is settled. -/
theorem JobSystem.Sound.settled_of_effect {s' : JobSystem κ} (h : s.Sound launch)
    (he : s.Effect launch s')
    (hended : s'.job.status = .completed ∨ s'.job.status = .failed) : s'.Settled launch := by
  cases he with
  | quiet hjob hsettled =>
      rw [hjob] at hended
      exact hsettled hended
  | cancelled hs hjob =>
      rw [hjob] at hended
      exact nomatch hended
  | progress hs hu hopen hjob =>
      rw [hjob, OptimizationJob.update] at hended
      rcases hu.status with hnone | hrunning
      · rw [hnone] at hended
        exact absurd (h.settled hended) hs
      · rw [hrunning] at hended
        exact nomatch hended
  | final hu hopen hjob hsettled => exact hsettled

/-- An update with a terminal status leaves a job consistent that has no
outcome yet. -/
theorem JobUpdate.IsFinal.consistent {u : JobUpdate} (hu : u.IsFinal) {job : OptimizationJob}
    (hjob : job.results = [] ∧ job.walkForwardResult = none ∧ job.error = none) :
    (job.update u).Consistent := by
  obtain ⟨hresults, hwf, herror⟩ := hjob
  rcases hu.status with hstatus | hstatus
  · refine ⟨?_, ?_, fun _ => ?_⟩
    · simp [OptimizationJob.update, hstatus]
    · simp [OptimizationJob.update, hstatus]
    · simp [OptimizationJob.update, hu.completed hstatus, herror]
  · obtain ⟨hr, hw⟩ := hu.failed hstatus
    refine ⟨?_, fun _ => ?_, ?_⟩
    · simp [OptimizationJob.update, hstatus]
    · simp [OptimizationJob.update, hr, hw, hresults, hwf]
    · simp [OptimizationJob.update, hstatus]

/-- The results and the error agree with the status. -/
theorem JobSystem.Sound.consistent_of_effect {s' : JobSystem κ} (h : s.Sound launch)
    (he : s.Effect launch s') : s'.job.Consistent := by
  cases he with
  | quiet hjob _ =>
      rw [hjob]
      exact h.consistent
  | cancelled hs hjob =>
      rw [hjob]
      exact ⟨fun _ => h.no_results hs, nofun, nofun⟩
  | progress hs hu hopen hjob =>
      have hresults : s'.job.results = [] ∧ s'.job.walkForwardResult = none := by
        rw [hjob, OptimizationJob.update, hu.results, hu.walkForwardResult]
        exact h.no_results hs
      refine ⟨fun _ => hresults, fun _ => hresults, fun hcompleted => ?_⟩
      rw [hjob, OptimizationJob.update] at hcompleted
      rcases hu.status with hnone | hrunning
      · rw [hnone] at hcompleted
        exact absurd (h.settled (.inl hcompleted)) hs
      · rw [hrunning] at hcompleted
        exact nomatch hcompleted
  | final hu hopen hjob hsettled =>
      rw [hjob]
      exact hu.consistent (h.unfinished hopen)

/-- A step that changes nothing has no effect. -/
theorem JobSystem.Sound.effect_self (h : s.Sound launch) : s.Effect launch s :=
  .quiet rfl h.settled

/-- A step of a system that is not settled has no effect if it leaves the job. -/
theorem JobSystem.Sound.effect_of_not_settled {s' : JobSystem κ} (h : s.Sound launch)
    (hs : ¬ s.Settled launch) (hjob : s'.job = s.job) : s.Effect launch s' :=
  .quiet hjob fun hstatus => absurd (h.settled hstatus) hs

variable [DecidableEq κ]

theorem JobSystem.Sound.effect_work (h : s.Sound launch) (ha : s.Undisturbed launch .work) :
    s.Effect launch (s.step launch .work) := by
  simp only [JobSystem.step]
  split
  next u us hw =>
      have hs : ¬ s.Settled launch := not_settled_of_working hw
      have hannounced : s.announced launch .work = u.status := by
        simp only [JobSystem.announced, hw]
      cases h.shaped _ hw with
      | progress hu hus =>
          refine .progress hs hu ?_ rfl
          refine hu.status.imp_right fun hrunning => h.isOpen hs ?_
          exact (ha .running (by rw [hannounced]; exact hrunning)).1
      | final hu hraised =>
          obtain ⟨status, hstatus, hterminal⟩ :
              ∃ status, u.status = some status ∧ status.terminal = true := by
            rcases hu.status with hu | hu <;> exact ⟨_, hu, rfl⟩
          obtain ⟨hcancelled, hquiet⟩ := ha status (by rw [hannounced]; exact hstatus)
          obtain ⟨hidle, hrequested⟩ := hquiet hterminal
          have hbegun : s.runner ≠ .created := by
            intro hr
            rw [h.unstarted hr] at hw
            cases hw
          exact .final hu (h.isOpen hs hcancelled) rfl
            ⟨hidle, hrequested, hbegun, .inl rfl, .inl hraised⟩
  next hw =>
      refine .quiet rfl fun hstatus => ?_
      obtain ⟨hidle, hrequested, hbegun, -, hraised⟩ := h.settled hstatus
      exact ⟨hidle, hrequested, hbegun, .inr rfl, hraised⟩
  · exact h.effect_self

theorem JobSystem.Sound.effect_resume (h : s.Sound launch)
    (ha : s.Undisturbed launch .resume) : s.Effect launch (s.step launch .resume) := by
  simp only [JobSystem.step]
  split
  next hrunner =>
      split
      next hrequested => exact .cancelled (not_settled_of_requested hrequested) rfl
      next hrequested =>
          rw [Bool.not_eq_true] at hrequested
          split
          next e hw hraised =>
              have hs : ¬ s.Settled launch := by
                intro hs
                rcases hs.noFailure with hn | hn
                · rw [hraised] at hn
                  cases hn
                · rw [hrunner] at hn
                  cases hn
              have hannounced : s.announced launch .resume = some .failed := by
                simp only [JobSystem.announced, hrunner, hrequested, hw, hraised]
              obtain ⟨hcancelled, hquiet⟩ := ha .failed hannounced
              exact .final (failedUpdate_isFinal _) (h.isOpen hs hcancelled) rfl
                ⟨(hquiet rfl).1, hrequested, nofun, .inr hw, .inr rfl⟩
          next hw hraised =>
              refine .quiet rfl fun hstatus => ?_
              obtain ⟨hidle, -, -, hwritten, -⟩ := h.settled hstatus
              exact ⟨hidle, hrequested, nofun, hwritten, .inr rfl⟩
          · exact h.effect_self
  · exact h.effect_self

/-- **What an undisturbed step does.** -/
theorem JobSystem.Sound.effect (h : s.Sound launch) (ha : s.Undisturbed launch a) :
    s.Effect launch (s.step launch a) := by
  cases a with
  | begin =>
      simp only [JobSystem.step]
      split
      next hrunner =>
          have hs : ¬ s.Settled launch := not_settled_of_created hrunner
          split <;> exact h.effect_of_not_settled hs rfl
      · exact h.effect_self
  | work => exact h.effect_work ha
  | resume => exact h.effect_resume ha
  | look c =>
      simp only [JobSystem.step]
      split
      next hc =>
          refine .quiet rfl fun hstatus => ?_
          rcases hstatus with hstatus | hstatus <;> rw [hstatus] at hc <;> exact nomatch hc.2
      · exact h.effect_self
  | stop c =>
      simp only [JobSystem.step]
      split
      next hc =>
          exact h.effect_of_not_settled (not_settled_of_cancels (c := c) (by rw [hc]; nofun)) rfl
      · exact h.effect_self
  | mark c =>
      simp only [JobSystem.step]
      split
      next hc => exact .cancelled (not_settled_of_cancels (c := c) (by rw [hc]; nofun)) rfl
      · exact h.effect_self

/-- What the worker has left stays well shaped, and it does not start before
its runner. -/
theorem JobSystem.Sound.worker_step (h : s.Sound launch)
    (hrun : Shaped launch.run.raised launch.run.updates) :
    (∀ us, (s.step launch a).worker = .working us → Shaped launch.run.raised us) ∧
      ((s.step launch a).runner = .created → (s.step launch a).worker = .unstarted) := by
  have hkept : (∀ us, s.worker = .working us → Shaped launch.run.raised us) ∧
      (s.runner = .created → s.worker = .unstarted) := ⟨h.shaped, h.unstarted⟩
  cases a with
  | begin =>
      simp only [JobSystem.step]
      split
      · split
        · exact ⟨h.shaped, nofun⟩
        · refine ⟨fun us hus => ?_, nofun⟩
          cases hus
          exact hrun
      · exact hkept
  | work =>
      simp only [JobSystem.step]
      split
      next u us hw =>
          refine ⟨fun us' hus' => ?_, fun hrunner => ?_⟩
          · cases hus'
            cases h.shaped _ hw with
            | final hu hraised => exact .done
            | progress hu hus => exact hus
          · have hunstarted : s.worker = .unstarted := h.unstarted hrunner
            rw [hw] at hunstarted
            cases hunstarted
      next hw =>
          refine ⟨nofun, fun hrunner => ?_⟩
          have hunstarted : s.worker = .unstarted := h.unstarted hrunner
          rw [hw] at hunstarted
          cases hunstarted
      · exact hkept
  | resume =>
      simp only [JobSystem.step]
      split
      · split
        · exact ⟨h.shaped, nofun⟩
        · split
          · exact ⟨h.shaped, nofun⟩
          · exact ⟨h.shaped, nofun⟩
          · exact hkept
      · exact hkept
  | look c =>
      simp only [JobSystem.step]
      split <;> exact hkept
  | stop c =>
      simp only [JobSystem.step]
      split <;> exact hkept
  | mark c =>
      simp only [JobSystem.step]
      split <;> exact hkept

/-- An undisturbed step keeps the invariant. -/
theorem JobSystem.Sound.step (h : s.Sound launch)
    (hrun : Shaped launch.run.raised launch.run.updates) (ha : s.Undisturbed launch a) :
    (s.step launch a).Sound launch where
  shaped := (h.worker_step hrun).1
  unstarted := (h.worker_step hrun).2
  unfinished := h.unfinished_of_effect (h.effect ha)
  settled := h.settled_of_effect (h.effect ha)
  consistent := h.consistent_of_effect (h.effect ha)

/-! ## §4 Runs -/

omit [DecidableEq κ] in
theorem JobSystem.sound_init (launch : Launch) : ({} : JobSystem κ).Sound launch where
  shaped := nofun
  unstarted _ := rfl
  unfinished _ := ⟨rfl, rfl, rfl⟩
  settled := nofun
  consistent := ⟨nofun, nofun, nofun⟩

/-- The invariant holds after every undisturbed run. -/
theorem sound_run {actions : List (JobAction κ)}
    (hrun : Shaped launch.run.raised launch.run.updates)
    (h : Steps.Along (JobSystem.step launch) (JobSystem.Undisturbed launch) s actions)
    (hs : s.Sound launch) : (Steps.run (JobSystem.step launch) s actions).Sound launch :=
  Steps.Along.invariant (fun _ _ hs ha => hs.step hrun ha) h hs

/-- A terminal status stays in an undisturbed run. -/
theorem status_run {actions : List (JobAction κ)}
    (hrun : Shaped launch.run.raised launch.run.updates)
    (h : Steps.Along (JobSystem.step launch) (JobSystem.Undisturbed launch) s actions)
    (hs : s.Sound launch) (hterminal : s.job.status.terminal = true) :
    (Steps.run (JobSystem.step launch) s actions).job.status = s.job.status := by
  have hkept := Steps.Along.invariant
    (I := fun t => t.Sound launch ∧ t.job.status = s.job.status)
    (fun t a ht ha => ⟨ht.1.step hrun ha,
      (ht.1.status_of_effect (ht.1.effect ha) (by rw [ht.2]; exact hterminal)).trans ht.2⟩)
    h ⟨hs, rfl⟩
  exact hkept.2

/-- The launches of the two runners. -/
inductive Launched (env : RunnerDeps D δ ι σ) (request : JobRequest D) : Launch → Prop
  | gridSearch (hasTask : Bool) :
      Launched env request (GridSearchOptimizer.launch env request hasTask)
  | walkForward (hasTask : Bool) :
      Launched env request (WalkForwardOptimizer.launch env request hasTask)

theorem Launched.shaped {env : RunnerDeps D δ ι σ} {request : JobRequest D}
    (h : Launched env request launch) : Shaped launch.run.raised launch.run.updates := by
  cases h with
  | gridSearch => exact GridSearchOptimizer.syncRun_shaped env request
  | walkForward => exact WalkForwardOptimizer.syncRun_shaped env request

/-- **A terminal status stays in every run that no write of the runner
disturbs**, and the results and the error of the job agree with its status in
every state of the run. -/
theorem terminal_stays_of_undisturbed {env : RunnerDeps D δ ι σ} {request : JobRequest D}
    (hlaunch : Launched env request launch) (actions more : List (JobAction κ))
    (h : Steps.Along (JobSystem.step launch) (JobSystem.Undisturbed launch) {}
      (actions ++ more)) :
    let reached := Steps.run (JobSystem.step launch) {} actions
    let later := Steps.run (JobSystem.step launch) {} (actions ++ more)
    (reached.job.status.terminal = true → later.job.status = reached.job.status) ∧
      later.job.Consistent := by
  have hlater := sound_run hlaunch.shaped h (JobSystem.sound_init launch)
  refine ⟨fun hterminal => ?_, hlater.consistent⟩
  obtain ⟨hbefore, hafter⟩ := h.of_append
  have hreached := sound_run hlaunch.shaped hbefore (JobSystem.sound_init launch)
  rw [Steps.run_append]
  exact status_run hlaunch.shaped hafter hreached hterminal

/-! ## §5 A cancelled job that completes -/

/-- Runners over the falling prices. -/
def fallingRunner : RunnerDeps Unit Unit ℕ Unit where
  deps _ := fallingDeps
  computeSensitivity _ _ := []
  artifactBars _ := .ok (some [[]])
  floatMath := { sqrt := fun _ => 0, pow := fun _ _ => 0 }
  diagnostics := { stability := fun _ => 0, rankCorrelation := fun _ => 0 }

/-- A job over one combination of parameters. -/
def oneCombination : JobRequest Unit where
  definition := ()
  metadata := [("bars_artifact_id", .str "a")]
  combinations := .ok [[("fast", .ofRat 1)]]
  metric := "total_return"

/-- The grid search of the one combination. -/
def oneCombinationLaunch : Launch := GridSearchOptimizer.launch fallingRunner oneCombination true

/-- The job is cancelled while its worker runs. -/
def cancelledMidway : List (JobAction Unit) := [.begin, .work, .look (), .stop (), .mark ()]

/-- The job completes, and a caller then asks to cancel it. -/
theorem terminal_stays_after_completion :
    let completed := Steps.run (JobSystem.step oneCombinationLaunch) ({} : JobSystem Unit)
      [.begin, .work, .work, .work]
    let later := Steps.run (JobSystem.step oneCombinationLaunch) ({} : JobSystem Unit)
      ([.begin, .work, .work, .work] ++ [.work, .resume, .look (), .stop (), .mark ()])
    completed.job.status = .completed ∧ later.job.status = .completed := by
  have halong : Steps.Along (JobSystem.step oneCombinationLaunch)
      (JobSystem.Undisturbed oneCombinationLaunch) ({} : JobSystem Unit)
      ([.begin, .work, .work, .work] ++ [.work, .resume, .look (), .stop (), .mark ()]) :=
    ⟨nofun, undisturbed_of_quiet (fun _ => rfl) rfl (by decide +kernel),
      undisturbed_of_quiet (fun _ => rfl) rfl (by decide +kernel),
      undisturbed_of_quiet (fun _ => rfl) rfl (by decide +kernel), nofun, nofun, nofun, nofun,
      nofun, trivial⟩
  have hcompleted : (Steps.run (JobSystem.step oneCombinationLaunch) ({} : JobSystem Unit)
      [.begin, .work, .work, .work]).job.status = .completed := by decide +kernel
  have hlaunch : Launched fallingRunner oneCombination oneCombinationLaunch := .gridSearch true
  have hstays := (terminal_stays_of_undisturbed hlaunch _ _ halong).1
    (by rw [hcompleted]; rfl)
  exact ⟨hcompleted, hstays.trans hcompleted⟩

/-- **The worker that keeps running completes the cancelled job**, and leaves
it with the error of the cancellation. -/
theorem cancelled_then_completed :
    let cancelled := Steps.run (JobSystem.step oneCombinationLaunch) {} cancelledMidway
    let later := Steps.run (JobSystem.step oneCombinationLaunch) {}
      (cancelledMidway ++ [.work, .work])
    cancelled.job.status = .cancelled ∧ later.job.status = .completed ∧
      later.job.error = some { template := "Cancelled by user" } := by
  decide +kernel

end Finbar.Optimization
