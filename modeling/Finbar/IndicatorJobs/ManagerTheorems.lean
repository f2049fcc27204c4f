/-
Finbar.IndicatorJobs.ManagerTheorems — what the in-memory indicator job manager keeps
about a job, over all runs of the threads that call it.

`Keyed` says that tasks, results, frames and metadata are kept for filed jobs only. A
step leaves a keyed manager keyed exactly when it meets `KeepsKeys`: nothing is stored
for a job that is not filed, no task is recorded before its job is filed, and no job
that has a frame is evicted (`keyed_next_iff`). `cancel_all_non_terminal` counts the
jobs it has changed along the runs whose steps meet `CountsChange`: it comes to no
terminal job, and nobody else cancels a job between its check and its write.

No `sorry`, no `axiom`.
-/
import Finbar.IndicatorJobs.Manager
import Mathlib.Data.List.Perm.Basic

namespace Finbar.IndicatorJobs.Manager

open Lib Lib.Python Lib.Steps

variable {F : Type} {m m' : JobManager F}

/-! ## §1 Filed jobs -/

namespace JobManager

/-- The id of a job object. -/
def idOf (m : JobManager F) (job : JobRef) : Option String :=
  (m.objects[job]?).map Job.jobId

theorem idOf_of_getElem? {job : JobRef} {record : Job} (h : m.objects[job]? = some record) :
    m.idOf job = some record.jobId := by
  simp [idOf, h]

theorem getElem?_of_idOf {job : JobRef} {jobId : String} (h : m.idOf job = some jobId) :
    ∃ record, m.objects[job]? = some record ∧ record.jobId = jobId :=
  Option.map_eq_some_iff.mp h

/-- Every job is filed under its own id. -/
def Filed (m : JobManager F) : Prop :=
  ∀ jobId job, m.jobs.get jobId = some job → m.idOf job = some jobId

/-- A later state of the manager: the job objects are still there, and the jobs that
have been filed meanwhile are filed under their ids. -/
structure Follows (m m' : JobManager F) : Prop where
  idOf : ∀ job jobId, m.idOf job = some jobId → m'.idOf job = some jobId
  filed : ∀ jobId job, m'.jobs.get jobId = some job →
    m.jobs.get jobId = some job ∨ m'.idOf job = some jobId

theorem Follows.trans {m'' : JobManager F} (h : m.Follows m') (h' : m'.Follows m'') :
    m.Follows m'' where
  idOf := fun job jobId hid => h'.idOf job jobId (h.idOf job jobId hid)
  filed := by
    intro jobId job hjob
    rcases h'.filed jobId job hjob with hbefore | hid
    · exact (h.filed jobId job hbefore).imp_right (h'.idOf job jobId)
    · exact .inr hid

/-- Filed jobs stay filed under their own ids. -/
theorem Filed.follows (h : m.Filed) (hfollows : m.Follows m') : m'.Filed := by
  intro jobId job hjob
  rcases hfollows.filed jobId job hjob with hbefore | hid
  · exact hfollows.idOf job jobId (h jobId job hbefore)
  · exact hid

/-- With the same job objects, and no other jobs filed. -/
theorem follows_of_objects (hobjects : m'.objects = m.objects)
    (hjobs : ∀ jobId job, m'.jobs.get jobId = some job → m.jobs.get jobId = some job) :
    m.Follows m' where
  idOf := fun job jobId h => by rwa [JobManager.idOf, hobjects]
  filed := fun jobId job h => .inl (hjobs jobId job h)

theorem Follows.refl (m : JobManager F) : m.Follows m :=
  follows_of_objects rfl fun _ _ h => h

/-- With more job objects. -/
theorem follows_of_append {records : List Job} (hobjects : m'.objects = m.objects ++ records)
    (hjobs : m'.jobs = m.jobs) : m.Follows m' where
  idOf := by
    intro job jobId h
    obtain ⟨record, hrecord, rfl⟩ := getElem?_of_idOf h
    refine idOf_of_getElem? ?_
    rw [hobjects, List.getElem?_append_left (List.getElem?_eq_some_iff.mp hrecord).1, hrecord]
  filed := fun jobId job h => .inl (by rwa [← hjobs])

/-- With a job object changed, but for its id. -/
theorem follows_of_modify {job : JobRef} {f : Job → Job}
    (hf : ∀ record, (f record).jobId = record.jobId)
    (hobjects : m'.objects = m.objects.modify job f) (hjobs : m'.jobs = m.jobs) :
    m.Follows m' where
  idOf := by
    intro other jobId h
    obtain ⟨record, hrecord, rfl⟩ := getElem?_of_idOf h
    rw [JobManager.idOf, hobjects, List.getElem?_modify, hrecord]
    by_cases heq : job = other
    · simp [heq, hf]
    · simp [heq]
  filed := fun jobId job h => .inl (by rwa [← hjobs])

end JobManager

/-! ## §2 Popping jobs -/

namespace JobManager

/-- Several jobs are removed at once. -/
def removeAll (m : JobManager F) (jobIds : List String) : JobManager F :=
  { m with
    jobs := m.jobs.eraseAll jobIds
    tasks := m.tasks.eraseAll jobIds
    results := m.results.eraseAll jobIds
    frames := m.frames.eraseAll jobIds
    metaCache := m.metaCache.eraseAll jobIds }

/-- Several jobs are evicted at once. -/
def evictAll (m : JobManager F) (jobIds : List String) : JobManager F :=
  { m with
    jobs := m.jobs.eraseAll jobIds
    tasks := m.tasks.eraseAll jobIds
    results := m.results.eraseAll jobIds
    metaCache := m.metaCache.eraseAll jobIds }

theorem foldl_remove (m : JobManager F) (jobIds : List String) :
    jobIds.foldl remove m = m.removeAll jobIds := by
  induction jobIds generalizing m with
  | nil => rfl
  | cons jobId jobIds ih => exact ih (m.remove jobId)

theorem evictAll_cons (m : JobManager F) (jobId : String) (jobIds : List String) :
    m.evictAll (jobId :: jobIds) = (m.evict jobId).evictAll jobIds := rfl

theorem get_of_get_eraseAll {β : Type} {d : OrderedDict String β} {jobIds : List String}
    {jobId : String} {value : β} (h : (d.eraseAll jobIds).get jobId = some value) :
    d.get jobId = some value := by
  unfold OrderedDict.eraseAll at h
  induction jobIds generalizing d with
  | nil => exact h
  | cons first jobIds ih =>
      have hget := ih h
      rw [OrderedDict.get_erase] at hget
      split_ifs at hget
      exact hget

theorem follows_removeAll (m : JobManager F) (jobIds : List String) :
    m.Follows (m.removeAll jobIds) :=
  follows_of_objects rfl fun _ _ h => get_of_get_eraseAll h

theorem follows_evictAll (m : JobManager F) (jobIds : List String) :
    m.Follows (m.evictAll jobIds) :=
  follows_of_objects rfl fun _ _ h => get_of_get_eraseAll h

/-! ## §3 The jobs over the limit -/

/-- The oldest terminal jobs, as many as there are jobs over the limit. -/
def overflow (m : JobManager F) : List String :=
  ((m.removable.filter fun job => job.status.terminal).take
    (m.jobs.items.length - m.maxJobs)).map Job.jobId

/-- The job objects that are filed have the ids they are filed under. -/
theorem map_filedJobs (h : m.Filed) : m.filedJobs.map Job.jobId = m.jobs.keys := by
  unfold filedJobs OrderedDict.keys
  rw [List.map_filterMap, ← List.filterMap_eq_map]
  refine List.filterMap_congr fun entry hentry => ?_
  exact h entry.1 entry.2 (OrderedDict.get_of_mem hentry)

theorem map_removable_perm (h : m.Filed) : (m.removable.map Job.jobId).Perm m.jobs.keys := by
  rw [← map_filedJobs h]
  exact (List.perm_insertionSort _ m.filedJobs).map Job.jobId

/-- The loop evicts terminal jobs, the first ones first, until the limit is met. -/
theorem enforceFrom_eq {candidates : List Job} (hnodup : (candidates.map Job.jobId).Nodup)
    (hfiled : ∀ job ∈ candidates, job.jobId ∈ m.jobs.keys) :
    enforceFrom candidates m = m.evictAll (((candidates.filter fun job => job.status.terminal).take
      (m.jobs.items.length - m.maxJobs)).map Job.jobId) := by
  induction candidates generalizing m with
  | nil =>
      rw [List.filter_nil, List.take_nil]
      rfl
  | cons job rest ih =>
      rw [List.map_cons, List.nodup_cons] at hnodup
      unfold enforceFrom
      by_cases hlimit : m.jobs.items.length ≤ m.maxJobs
      · rw [if_pos hlimit, Nat.sub_eq_zero_of_le hlimit, List.take_zero]
        rfl
      · rw [if_neg hlimit]
        cases hterminal : job.status.terminal with
        | false =>
            rw [List.filter_cons_of_neg (by simp [hterminal])]
            exact ih hnodup.2 fun other h => hfiled other (List.mem_cons_of_mem job h)
        | true =>
            have hlength := OrderedDict.length_erase (hfiled job List.mem_cons_self)
            have hrest : ∀ other ∈ rest, other.jobId ∈ (m.evict job.jobId).jobs.keys := by
              intro other h
              refine OrderedDict.mem_keys_erase.mpr
                ⟨fun heq => hnodup.1 ?_, hfiled other (List.mem_cons_of_mem job h)⟩
              exact heq ▸ List.mem_map_of_mem h
            have hover : m.jobs.items.length - m.maxJobs
                = (m.jobs.erase job.jobId).items.length - m.maxJobs + 1 := by omega
            rw [List.filter_cons_of_pos (by simp [hterminal]), hover, List.take_succ_cons,
              List.map_cons, evictAll_cons]
            exact ih hnodup.2 hrest

/-- **`_enforce_max_jobs_locked`** evicts the oldest terminal jobs over the limit. -/
theorem enforceMaxJobs_eq (h : m.Filed) : m.enforceMaxJobs = m.evictAll m.overflow := by
  unfold enforceMaxJobs
  by_cases hlimit : m.jobs.items.length ≤ m.maxJobs
  · rw [if_pos hlimit, overflow, Nat.sub_eq_zero_of_le hlimit, List.take_zero]
    rfl
  · rw [if_neg hlimit]
    have hperm := map_removable_perm h
    exact enforceFrom_eq (hperm.nodup_iff.mpr m.jobs.nodup)
      fun job hjob => hperm.mem_iff.mp (List.mem_map_of_mem hjob)

end JobManager

/-! ## §4 Keys -/

/-- **The invariant**: tasks, results, frames and metadata are kept for filed jobs
only. -/
structure JobManager.Keyed (m : JobManager F) : Prop where
  tasks : ∀ jobId ∈ m.tasks.keys, jobId ∈ m.jobs.keys
  results : ∀ jobId ∈ m.results.keys, jobId ∈ m.jobs.keys
  frames : ∀ jobId ∈ m.frames.keys, jobId ∈ m.jobs.keys
  metaCache : ∀ jobId ∈ m.metaCache.keys, jobId ∈ m.jobs.keys

namespace JobManager

/-- With the same keys, or fewer, and no filed job less. -/
theorem Keyed.of_keys (h : m.Keyed) (hjobs : ∀ jobId ∈ m.jobs.keys, jobId ∈ m'.jobs.keys)
    (htasks : m'.tasks = m.tasks) (hresults : m'.results = m.results)
    (hframes : m'.frames = m.frames) (hmeta : m'.metaCache = m.metaCache) : m'.Keyed where
  tasks := fun jobId hmem => hjobs jobId (h.tasks jobId (htasks ▸ hmem))
  results := fun jobId hmem => hjobs jobId (h.results jobId (hresults ▸ hmem))
  frames := fun jobId hmem => hjobs jobId (h.frames jobId (hframes ▸ hmem))
  metaCache := fun jobId hmem => hjobs jobId (h.metaCache jobId (hmeta ▸ hmem))

theorem mem_keys_eraseAll_mono {β γ : Type} {d : OrderedDict String β}
    {jobs : OrderedDict String γ} (h : ∀ jobId ∈ d.keys, jobId ∈ jobs.keys)
    (jobIds : List String) :
    ∀ jobId ∈ (d.eraseAll jobIds).keys, jobId ∈ (jobs.eraseAll jobIds).keys := by
  intro jobId hmem
  obtain ⟨hkept, hbefore⟩ := OrderedDict.mem_keys_eraseAll.mp hmem
  exact OrderedDict.mem_keys_eraseAll.mpr ⟨hkept, h jobId hbefore⟩

/-- Removing jobs releases all that is kept for them. -/
theorem Keyed.removeAll (h : m.Keyed) (jobIds : List String) : (m.removeAll jobIds).Keyed where
  tasks := mem_keys_eraseAll_mono h.tasks jobIds
  results := mem_keys_eraseAll_mono h.results jobIds
  frames := mem_keys_eraseAll_mono h.frames jobIds
  metaCache := mem_keys_eraseAll_mono h.metaCache jobIds

/-- **Evicting jobs** leaves the frames of those that have one. -/
theorem keyed_evictAll_iff (h : m.Keyed) {jobIds : List String} :
    (m.evictAll jobIds).Keyed ↔ ∀ jobId ∈ jobIds, jobId ∉ m.frames.keys := by
  constructor
  · intro hkeyed jobId hevicted hframe
    exact (OrderedDict.mem_keys_eraseAll.mp (hkeyed.frames jobId hframe)).1 hevicted
  · intro hunframed
    exact {
      tasks := mem_keys_eraseAll_mono h.tasks jobIds
      results := mem_keys_eraseAll_mono h.results jobIds
      frames := fun jobId hframe => OrderedDict.mem_keys_eraseAll.mpr
        ⟨fun hevicted => hunframed jobId hevicted hframe, h.frames jobId hframe⟩
      metaCache := mem_keys_eraseAll_mono h.metaCache jobIds }

theorem mem_keys_assign_iff {β γ : Type} {d : OrderedDict String β}
    {jobs : OrderedDict String γ} (h : ∀ jobId ∈ d.keys, jobId ∈ jobs.keys) {key : String}
    {value : β} :
    (∀ jobId ∈ (d.assign key value).keys, jobId ∈ jobs.keys) ↔ key ∈ jobs.keys := by
  constructor
  · intro hall
    exact hall key (OrderedDict.mem_keys_assign.mpr (.inl rfl))
  · intro hkey jobId hmem
    rcases OrderedDict.mem_keys_assign.mp hmem with rfl | hbefore
    · exact hkey
    · exact h jobId hbefore

/-- The job of the object is filed. -/
def IsFiled (m : JobManager F) (job : JobRef) : Prop :=
  ∀ jobId, m.idOf job = some jobId → jobId ∈ m.jobs.keys

theorem isFiled_iff {job : JobRef} {record : Job} (h : m.objects[job]? = some record) :
    m.IsFiled job ↔ record.jobId ∈ m.jobs.keys := by
  unfold IsFiled
  rw [idOf_of_getElem? h]
  simp

theorem isFiled_of_none {job : JobRef} (h : m.objects[job]? = none) : m.IsFiled job := by
  intro jobId hid
  rw [idOf, h] at hid
  cases hid

theorem keyed_storeResult_iff (h : m.Keyed) (text : PyValue → String) (job : JobRef)
    (bars : List BarDict) : (m.storeResult text job bars).Keyed ↔ m.IsFiled job := by
  unfold storeResult
  cases hrecord : m.objects[job]? with
  | none => exact iff_of_true h (isFiled_of_none hrecord)
  | some record =>
      rw [isFiled_iff hrecord]
      constructor
      · intro hkeyed
        exact (mem_keys_assign_iff h.results).mp hkeyed.results
      · intro hfiled
        exact {
          tasks := h.tasks
          results := (mem_keys_assign_iff h.results).mpr hfiled
          frames := h.frames
          metaCache := (mem_keys_assign_iff h.metaCache).mpr hfiled }

theorem keyed_storeFrame_iff (h : m.Keyed) (job : JobRef) (frame : F) :
    (m.storeFrame job frame).Keyed ↔ m.IsFiled job := by
  unfold storeFrame
  cases hrecord : m.objects[job]? with
  | none => exact iff_of_true h (isFiled_of_none hrecord)
  | some record =>
      rw [isFiled_iff hrecord]
      constructor
      · intro hkeyed
        exact (mem_keys_assign_iff h.frames).mp hkeyed.frames
      · intro hfiled
        exact {
          tasks := h.tasks
          results := h.results
          frames := (mem_keys_assign_iff h.frames).mpr hfiled
          metaCache := h.metaCache }

theorem keyed_dispatch_iff (h : m.Keyed) (reading : Reading) :
    (m.dispatch reading).Keyed
      ↔ (reading.loopRunning = true → reading.jobId ∈ m.jobs.keys) := by
  unfold dispatch
  cases hloop : reading.loopRunning with
  | false =>
      refine iff_of_true ?_ fun hfalse => by cases hfalse
      exact h.of_keys (fun _ hmem => hmem) rfl rfl rfl rfl
  | true =>
      constructor
      · intro hkeyed _
        exact (mem_keys_assign_iff h.tasks).mp hkeyed.tasks
      · intro hfiled
        exact {
          tasks := (mem_keys_assign_iff h.tasks).mpr (hfiled rfl)
          results := h.results
          frames := h.frames
          metaCache := h.metaCache }

theorem Keyed.file (h : m.Keyed) (job : JobRef) : (m.file job).Keyed := by
  unfold JobManager.file
  cases hrecord : m.objects[job]? with
  | none => exact h
  | some record =>
      refine h.of_keys (fun jobId hmem => ?_) rfl rfl rfl rfl
      exact OrderedDict.mem_keys_assign.mpr (.inr hmem)

end JobManager

/-! ## §5 Steps -/

theorem JobManager.follows_file (m : JobManager F) (job : JobRef) : m.Follows (m.file job) := by
  unfold JobManager.file
  cases hrecord : m.objects[job]? with
  | none => exact .refl m
  | some record =>
      refine ⟨fun _ _ h => h, fun jobId other hother => ?_⟩
      rw [OrderedDict.get_assign] at hother
      split_ifs at hother with heq
      · obtain rfl := Option.some.inj hother
        exact .inr (heq ▸ JobManager.idOf_of_getElem? hrecord)
      · exact .inl hother

theorem JobManager.follows_update (m : JobManager F) (job : JobRef) (updates : JobUpdate) :
    m.Follows (m.update job updates) :=
  JobManager.follows_of_modify (f := fun record => record.updated updates)
    (fun _ => rfl) rfl rfl

theorem JobManager.follows_cleanupExpired (m : JobManager F) (now : ℤ) :
    m.Follows (m.cleanupExpired now) := by
  unfold JobManager.cleanupExpired
  rw [JobManager.foldl_remove]
  exact m.follows_removeAll _

/-- A later state of the manager with the same dictionaries. -/
structure JobManager.SameMaps (m m' : JobManager F) : Prop where
  follows : m.Follows m'
  jobs : m'.jobs = m.jobs
  tasks : m'.tasks = m.tasks
  results : m'.results = m.results
  frames : m'.frames = m.frames
  metaCache : m'.metaCache = m.metaCache

theorem JobManager.SameMaps.refl (m : JobManager F) : m.SameMaps m :=
  ⟨.refl m, rfl, rfl, rfl, rfl, rfl⟩

theorem JobManager.SameMaps.keyed (hsame : m.SameMaps m') (h : m.Keyed) : m'.Keyed :=
  h.of_keys (fun _ hmem => hsame.jobs.symm ▸ hmem) hsame.tasks hsame.results hsame.frames
    hsame.metaCache

theorem JobManager.sameMaps_construct (m : JobManager F) (job : Job) :
    m.SameMaps { m with objects := m.objects ++ [job] } :=
  ⟨JobManager.follows_of_append rfl rfl, rfl, rfl, rfl, rfl, rfl⟩

theorem JobManager.sameMaps_update (m : JobManager F) (job : JobRef) (updates : JobUpdate) :
    m.SameMaps (m.update job updates) :=
  ⟨m.follows_update job updates, rfl, rfl, rfl, rfl, rfl⟩

/-- **Only the blocks of `start`** change the dictionaries: a step of another call leaves
them as they are. -/
theorem Call.sameMaps_step (reading : Reading) {call : Call} (hcleanup : call ≠ .startCleanup)
    (hdispatch : call ≠ .startDispatch) (hfile : ∀ job, call ≠ .startFile job) :
    m.SameMaps (call.step m reading).1 := by
  cases call with
  | startCleanup => exact absurd rfl hcleanup
  | startDispatch => exact absurd rfl hdispatch
  | startFile job => exact absurd rfl (hfile job)
  | cancelLookUp all jobId =>
      simp only [Call.step]
      split <;> exact .refl m
  | cancelCheck all jobId job =>
      simp only [Call.step]
      split
      · exact .refl m
      · split
        · exact .refl m
        · exact ⟨JobManager.follows_of_objects rfl fun _ _ h => h, rfl, rfl, rfl, rfl, rfl⟩
  | cancelWrite all jobId job =>
      simp only [Call.step]
      split
      · exact .refl m
      · exact m.sameMaps_update job cancelUpdate
  | startReturned job => exact .refl m
  | cancelReturned job => exact .refl m
  | cancelAllSnapshot => exact .refl m
  | cancelAllReturned cancelled changed => exact .refl m

/-- A step of a call leads to a later state of the manager. -/
theorem Call.follows_step (hfiled : m.Filed) (reading : Reading) (call : Call) :
    m.Follows (call.step m reading).1 := by
  cases call with
  | startCleanup => exact m.follows_cleanupExpired reading.now
  | startDispatch => exact JobManager.follows_of_append rfl rfl
  | startFile job =>
      have hfile := m.follows_file job
      simp only [Call.step, JobManager.enforceMaxJobs_eq (hfiled.follows hfile)]
      exact hfile.trans ((m.file job).follows_evictAll _)
  | _ => exact (Call.sameMaps_step reading (by simp) (by simp) (by simp)).follows

theorem System.follows_next (text : PyValue → String) {s : System F} (hfiled : s.manager.Filed)
    (event : Event F) : s.manager.Follows (s.next text event).manager := by
  cases event with
  | construct job => exact JobManager.follows_of_append rfl rfl
  | update job updates => exact s.manager.follows_update job updates
  | storeResult job bars =>
      simp only [System.next, JobManager.storeResult]
      split
      · exact .refl _
      · refine JobManager.follows_of_modify ?_ rfl rfl
        exact fun _ => rfl
  | storeFrame job frame =>
      simp only [System.next, JobManager.storeFrame]
      split
      · exact .refl _
      · exact JobManager.follows_of_objects rfl fun _ _ h => h
  | deleteArtifact jobId => exact s.manager.follows_removeAll [jobId]
  | cleanupExpired now => exact s.manager.follows_cleanupExpired now
  | start => exact .refl _
  | cancel jobId => exact .refl _
  | cancelAllNonTerminal => exact .refl _
  | advance call reading =>
      simp only [System.next]
      split
      · exact .refl _
      · exact Call.follows_step hfiled reading _

/-- When a step of a call keeps the invariant: a task is recorded for a filed job
only, and no job that has a frame is over the limit once the new one is filed. -/
def Call.KeepsKeys (m : JobManager F) (reading : Reading) : Call → Prop
  | .startDispatch => reading.loopRunning = true → reading.jobId ∈ m.jobs.keys
  | .startFile job => ∀ jobId ∈ (m.file job).overflow, jobId ∉ m.frames.keys
  | _ => True

/-- … and a step of the system: results and frames are stored for filed jobs only. -/
def KeepsKeys (s : System F) : Event F → Prop
  | .storeResult job _ => s.manager.IsFiled job
  | .storeFrame job _ => s.manager.IsFiled job
  | .advance call reading => ∀ stage, s.calls[call]? = some stage →
      stage.KeepsKeys s.manager reading
  | _ => True

theorem JobManager.file_frames (m : JobManager F) (job : JobRef) :
    (m.file job).frames = m.frames := by
  unfold JobManager.file
  split <;> rfl

theorem Call.keyed_step_iff (hfiled : m.Filed) (h : m.Keyed) (reading : Reading) (call : Call) :
    (call.step m reading).1.Keyed ↔ call.KeepsKeys m reading := by
  cases call with
  | startCleanup =>
      refine iff_of_true ?_ trivial
      simp only [Call.step, JobManager.cleanupExpired, JobManager.foldl_remove]
      exact h.removeAll _
  | startDispatch => exact JobManager.keyed_dispatch_iff h reading
  | startFile job =>
      have hfile := hfiled.follows (m.follows_file job)
      simp only [Call.step, JobManager.enforceMaxJobs_eq hfile, Call.KeepsKeys]
      rw [JobManager.keyed_evictAll_iff (h.file job), m.file_frames job]
  | _ =>
      exact iff_of_true ((Call.sameMaps_step reading (by simp) (by simp) (by simp)).keyed h) trivial

/-- **A step leaves a keyed manager keyed** exactly when it meets `KeepsKeys`. -/
theorem keyed_next_iff (text : PyValue → String) {s : System F} (hfiled : s.manager.Filed)
    (h : s.manager.Keyed) (event : Event F) :
    (s.next text event).manager.Keyed ↔ KeepsKeys s event := by
  cases event with
  | construct job => exact iff_of_true ((s.manager.sameMaps_construct job).keyed h) trivial
  | update job updates =>
      exact iff_of_true ((s.manager.sameMaps_update job updates).keyed h) trivial
  | storeResult job bars => exact JobManager.keyed_storeResult_iff h text job bars
  | storeFrame job frame => exact JobManager.keyed_storeFrame_iff h job frame
  | deleteArtifact jobId => exact iff_of_true (h.removeAll [jobId]) trivial
  | cleanupExpired now =>
      refine iff_of_true ?_ trivial
      simp only [System.next, JobManager.cleanupExpired, JobManager.foldl_remove]
      exact h.removeAll _
  | start => exact iff_of_true h trivial
  | cancel jobId => exact iff_of_true h trivial
  | cancelAllNonTerminal => exact iff_of_true h trivial
  | advance call reading =>
      simp only [System.next, KeepsKeys]
      cases hcall : s.calls[call]? with
      | none => exact iff_of_true h fun stage hstage => by cases hstage
      | some stage =>
          refine (stage.keyed_step_iff hfiled h reading).trans
            ⟨fun hstage other heq => ?_, fun hall => hall stage rfl⟩
          exact Option.some.inj heq ▸ hstage

/-! ## §6 Between the blocks of `start` -/

/-- A job is dispatched and will be filed by a call of `start`. -/
def System.Starting (s : System F) (jobId : String) : Prop :=
  ∃ job, .startFile job ∈ s.calls ∧ s.manager.idOf job = some jobId

/-- Every recorded task runs a job that is filed or will be. -/
def System.TasksAwaited (s : System F) : Prop :=
  ∀ jobId ∈ s.manager.tasks.keys, jobId ∈ s.manager.jobs.keys ∨ s.Starting jobId

/-- A step that records no task: a task that is still there has been there, and its
job is still filed if it was. -/
def JobManager.KeepsTasks (m m' : JobManager F) : Prop :=
  ∀ jobId ∈ m'.tasks.keys,
    jobId ∈ m.tasks.keys ∧ (jobId ∈ m.jobs.keys → jobId ∈ m'.jobs.keys)

namespace JobManager

theorem keepsTasks_of_eq (htasks : m'.tasks = m.tasks) (hjobs : m'.jobs = m.jobs) :
    m.KeepsTasks m' := by
  intro jobId hmem
  rw [htasks] at hmem
  rw [hjobs]
  exact ⟨hmem, id⟩

theorem keepsTasks_of_same (h : m.SameMaps m') : m.KeepsTasks m' :=
  keepsTasks_of_eq h.tasks h.jobs

theorem keepsTasks_of_eraseAll {jobIds : List String} (htasks : m'.tasks = m.tasks.eraseAll jobIds)
    (hjobs : m'.jobs = m.jobs.eraseAll jobIds) : m.KeepsTasks m' := by
  intro jobId hmem
  rw [htasks, OrderedDict.mem_keys_eraseAll] at hmem
  rw [hjobs, OrderedDict.mem_keys_eraseAll]
  exact ⟨hmem.2, fun hfiled => ⟨hmem.1, hfiled⟩⟩

theorem KeepsTasks.trans {m'' : JobManager F} (h : m.KeepsTasks m') (h' : m'.KeepsTasks m'') :
    m.KeepsTasks m'' := by
  intro jobId hmem
  obtain ⟨hbefore, hkept⟩ := h' jobId hmem
  obtain ⟨hfirst, hkept'⟩ := h jobId hbefore
  exact ⟨hfirst, fun hfiled => hkept (hkept' hfiled)⟩

theorem keepsTasks_removeAll (m : JobManager F) (jobIds : List String) :
    m.KeepsTasks (m.removeAll jobIds) :=
  keepsTasks_of_eraseAll rfl rfl

theorem keepsTasks_cleanupExpired (m : JobManager F) (now : ℤ) :
    m.KeepsTasks (m.cleanupExpired now) := by
  unfold cleanupExpired
  rw [foldl_remove]
  exact m.keepsTasks_removeAll _

theorem keepsTasks_file (m : JobManager F) (job : JobRef) : m.KeepsTasks (m.file job) := by
  unfold file
  cases hrecord : m.objects[job]? with
  | none => exact keepsTasks_of_eq rfl rfl
  | some record =>
      intro jobId hmem
      exact ⟨hmem, fun hfiled => OrderedDict.mem_keys_assign.mpr (.inr hfiled)⟩

/-- A job that is filed under an id has the id among the filed ones. -/
theorem mem_keys_file {job : JobRef} {jobId : String} (h : m.idOf job = some jobId) :
    jobId ∈ (m.file job).jobs.keys := by
  obtain ⟨record, hrecord, rfl⟩ := getElem?_of_idOf h
  unfold file
  rw [hrecord]
  exact OrderedDict.mem_keys_assign.mpr (.inl rfl)

end JobManager

/-- Every step of a call but the dispatch records no task. -/
theorem Call.keepsTasks_step (hfiled : m.Filed) (reading : Reading) {call : Call}
    (hcall : call ≠ .startDispatch) : m.KeepsTasks (call.step m reading).1 := by
  cases call with
  | startCleanup => exact m.keepsTasks_cleanupExpired reading.now
  | startDispatch => exact absurd rfl hcall
  | startFile job =>
      simp only [Call.step, JobManager.enforceMaxJobs_eq (hfiled.follows (m.follows_file job))]
      exact (m.keepsTasks_file job).trans (JobManager.keepsTasks_of_eraseAll rfl rfl)
  | _ =>
      exact JobManager.keepsTasks_of_same
        (Call.sameMaps_step reading (by simp) (by simp) (by simp))

/-- A call that will file a job is still there after another call's step. -/
theorem System.Starting.mono {s s' : System F} {jobId : String} (h : s.Starting jobId)
    (hfollows : s.manager.Follows s'.manager)
    (hcalls : ∀ job, .startFile job ∈ s.calls → .startFile job ∈ s'.calls) :
    s'.Starting jobId := by
  obtain ⟨job, hcall, hid⟩ := h
  exact ⟨job, hcalls job hcall, hfollows.idOf job jobId hid⟩

/-- A step that records no task and lets no call file its job. -/
theorem System.TasksAwaited.kept {s s' : System F} (h : s.TasksAwaited)
    (hfollows : s.manager.Follows s'.manager) (htasks : s.manager.KeepsTasks s'.manager)
    (hcalls : ∀ job, .startFile job ∈ s.calls → .startFile job ∈ s'.calls) :
    s'.TasksAwaited := by
  intro jobId hmem
  obtain ⟨hbefore, hkept⟩ := htasks jobId hmem
  exact (h jobId hbefore).imp hkept fun hstarting => hstarting.mono hfollows hcalls

/-- A call other than the one that moves is still where it was. -/
theorem mem_set_of_ne {calls : List Call} {call : ℕ} {stage moved other : Call}
    (hstage : calls[call]? = some stage) (hother : other ∈ calls) (hne : other ≠ stage) :
    other ∈ calls.set call moved := by
  obtain ⟨i, hi⟩ := List.getElem?_of_mem hother
  refine List.mem_of_getElem? (i := i) ?_
  rw [List.getElem?_set_ne ?_, hi]
  rintro rfl
  rw [hstage] at hi
  exact hne (Option.some.inj hi).symm

theorem mem_set_self {calls : List Call} {call : ℕ} {stage : Call} (moved : Call)
    (hstage : calls[call]? = some stage) : moved ∈ calls.set call moved := by
  refine List.mem_of_getElem? (i := call) ?_
  rw [List.getElem?_set_self (List.getElem?_eq_some_iff.mp hstage).1]

/-- The dispatch records a task for the job that its call will file. -/
theorem System.TasksAwaited.dispatch {s : System F} (h : s.TasksAwaited) (hfiled : s.manager.Filed)
    {call : ℕ} (hstage : s.calls[call]? = some .startDispatch) (reading : Reading) :
    (⟨s.manager.dispatch reading, s.calls.set call (.startFile s.manager.objects.length)⟩ :
      System F).TasksAwaited := by
  have hfollows := Call.follows_step hfiled reading .startDispatch
  have hmono : ∀ jobId, s.Starting jobId →
      (⟨s.manager.dispatch reading, s.calls.set call (.startFile s.manager.objects.length)⟩ :
        System F).Starting jobId := by
    intro jobId hstarting
    exact hstarting.mono hfollows fun job hjob =>
      mem_set_of_ne hstage hjob (by intro heq; cases heq)
  have hnew : (s.manager.dispatch reading).idOf s.manager.objects.length = some reading.jobId := by
    simp [JobManager.idOf, JobManager.dispatch]
  intro jobId hmem
  cases hloop : reading.loopRunning with
  | false =>
      simp only [JobManager.dispatch, hloop] at hmem
      exact (h jobId hmem).imp id (hmono jobId)
  | true =>
      simp only [JobManager.dispatch, hloop, if_true, OrderedDict.mem_keys_assign] at hmem
      rcases hmem with rfl | hbefore
      · exact .inr ⟨_, mem_set_self _ hstage, hnew⟩
      · exact (h jobId hbefore).imp id (hmono jobId)

/-- Every other step of a call. -/
theorem System.TasksAwaited.advance {s : System F} (h : s.TasksAwaited) (hfiled : s.manager.Filed)
    {call : ℕ} {stage : Call} (hstage : s.calls[call]? = some stage)
    (hne : stage ≠ .startDispatch) (reading : Reading) :
    (⟨(stage.step s.manager reading).1, s.calls.set call (stage.step s.manager reading).2⟩ :
      System F).TasksAwaited := by
  have hfollows := stage.follows_step hfiled reading
  intro jobId hmem
  obtain ⟨hbefore, hkept⟩ := Call.keepsTasks_step hfiled reading hne jobId hmem
  rcases h jobId hbefore with hjob | ⟨job, hjob, hid⟩
  · exact .inl (hkept hjob)
  · by_cases heq : stage = .startFile job
    · -- The call files its job, which is not evicted: its task is still there.
      subst heq
      have hfile := hfiled.follows (s.manager.follows_file job)
      simp only [Call.step, JobManager.enforceMaxJobs_eq hfile] at hmem ⊢
      obtain ⟨-, hfiles⟩ := JobManager.keepsTasks_of_eraseAll (m := s.manager.file job)
        rfl rfl jobId hmem
      exact .inl (hfiles (JobManager.mem_keys_file hid))
    · refine .inr ⟨job, ?_, hfollows.idOf job jobId hid⟩
      exact mem_set_of_ne hstage hjob fun hsame => heq hsame.symm

theorem System.TasksAwaited.next (text : PyValue → String) {s : System F} (h : s.TasksAwaited)
    (hfiled : s.manager.Filed) (event : Event F) : (s.next text event).TasksAwaited := by
  have hfollows := s.follows_next text hfiled event
  cases event with
  | construct job => exact h.kept hfollows (JobManager.keepsTasks_of_eq rfl rfl) fun _ hjob => hjob
  | update job updates =>
      exact h.kept hfollows (JobManager.keepsTasks_of_eq rfl rfl) fun _ hjob => hjob
  | storeResult job bars =>
      refine h.kept hfollows ?_ fun _ hjob => hjob
      simp only [System.next, JobManager.storeResult]
      split <;> exact JobManager.keepsTasks_of_eq rfl rfl
  | storeFrame job frame =>
      refine h.kept hfollows ?_ fun _ hjob => hjob
      simp only [System.next, JobManager.storeFrame]
      split <;> exact JobManager.keepsTasks_of_eq rfl rfl
  | deleteArtifact jobId =>
      exact h.kept hfollows (s.manager.keepsTasks_removeAll [jobId]) fun _ hjob => hjob
  | cleanupExpired now =>
      exact h.kept hfollows (s.manager.keepsTasks_cleanupExpired now) fun _ hjob => hjob
  | start =>
      exact h.kept hfollows (JobManager.keepsTasks_of_eq rfl rfl)
        fun _ hjob => List.mem_append_left _ hjob
  | cancel jobId =>
      exact h.kept hfollows (JobManager.keepsTasks_of_eq rfl rfl)
        fun _ hjob => List.mem_append_left _ hjob
  | cancelAllNonTerminal =>
      exact h.kept hfollows (JobManager.keepsTasks_of_eq rfl rfl)
        fun _ hjob => List.mem_append_left _ hjob
  | advance call reading =>
      simp only [System.next]
      cases hcall : s.calls[call]? with
      | none => exact h
      | some stage =>
          by_cases hdispatch : stage = .startDispatch
          · subst hdispatch
            exact h.dispatch hfiled hcall reading
          · exact h.advance hfiled hcall hdispatch reading

/-! ## §7 Counting the cancelled jobs -/

/-- What holds of a tally before the ids still to come: it has counted the jobs it has
changed, which were filed under other ids. -/
structure Tally.Sound (m : JobManager F) (tally : Tally) (jobIds : List String) : Prop where
  counted : tally.cancelled = tally.changed.length
  known : ∀ job ∈ tally.changed, ∃ jobId, m.idOf job = some jobId
  nodup : (tally.changed.map m.idOf ++ jobIds.map some).Nodup

theorem Tally.Sound.follows {tally : Tally} {jobIds : List String} (h : tally.Sound m jobIds)
    (hfollows : m.Follows m') : tally.Sound m' jobIds := by
  have hids : tally.changed.map m'.idOf = tally.changed.map m.idOf := by
    refine List.map_congr_left fun job hjob => ?_
    obtain ⟨jobId, hid⟩ := h.known job hjob
    rw [hid, hfollows.idOf job jobId hid]
  refine ⟨h.counted, fun job hjob => ?_, by rw [hids]; exact h.nodup⟩
  obtain ⟨jobId, hid⟩ := h.known job hjob
  exact ⟨jobId, hfollows.idOf job jobId hid⟩

/-- Jobs with different ids are different jobs. -/
theorem Tally.Sound.nodup_changed {tally : Tally} {jobIds : List String}
    (h : tally.Sound m jobIds) : tally.changed.Nodup :=
  (List.nodup_append.mp h.nodup).1.of_map m.idOf

/-- An id is passed over. -/
theorem Tally.Sound.skip {tally : Tally} {jobId : String} {jobIds : List String}
    (h : tally.Sound m (jobId :: jobIds)) : tally.Sound m jobIds where
  counted := h.counted
  known := h.known
  nodup := h.nodup.sublist (((List.sublist_cons_self jobId jobIds).map some).append_left _)

/-- The job that is filed under the id is changed, and counted. -/
theorem Tally.Sound.change {tally : Tally} {jobId : String} {jobIds : List String} {job : JobRef}
    (h : tally.Sound m (jobId :: jobIds)) (hid : m.idOf job = some jobId) :
    ({ tally with changed := tally.changed ++ [job], cancelled := tally.cancelled + 1 } :
      Tally).Sound m jobIds where
  counted := by simp [h.counted]
  known := by
    intro other hother
    rcases List.mem_append.mp hother with hbefore | hlast
    · exact h.known other hbefore
    · obtain rfl := List.mem_singleton.mp hlast
      exact ⟨jobId, hid⟩
  nodup := by
    have hnodup := h.nodup
    rw [List.map_cons, List.append_cons] at hnodup
    rwa [List.map_append, List.map_singleton, hid]

/-- What holds of a call: a job that `cancel` has found has the id it was looked up
under, and a tally is sound; a count that was returned is that of the changed jobs. -/
def Call.Sound (m : JobManager F) : Call → Prop
  | .cancelLookUp all jobId => ∀ tally ∈ all, tally.Sound m (jobId :: tally.todo)
  | .cancelCheck all jobId job =>
      m.idOf job = some jobId ∧ ∀ tally ∈ all, tally.Sound m (jobId :: tally.todo)
  | .cancelWrite all jobId job =>
      m.idOf job = some jobId ∧ ∀ tally ∈ all, tally.Sound m (jobId :: tally.todo)
  | .cancelAllReturned cancelled changed => cancelled = changed.length ∧ changed.Nodup
  | _ => True

theorem Call.Sound.follows {call : Call} (h : call.Sound m) (hfollows : m.Follows m') :
    call.Sound m' := by
  cases call with
  | cancelLookUp all jobId => exact fun tally htally => (h tally htally).follows hfollows
  | cancelCheck all jobId job =>
      exact ⟨hfollows.idOf job jobId h.1,
        fun tally htally => (h.2 tally htally).follows hfollows⟩
  | cancelWrite all jobId job =>
      exact ⟨hfollows.idOf job jobId h.1,
        fun tally htally => (h.2 tally htally).follows hfollows⟩
  | cancelAllReturned cancelled changed => exact h
  | _ => trivial

theorem Tally.Sound.proceed {tally : Tally} (h : tally.Sound m tally.todo) :
    tally.proceed.Sound m := by
  obtain ⟨todo, cancelled, changed⟩ := tally
  cases todo with
  | nil => exact ⟨h.counted, h.nodup_changed⟩
  | cons jobId todo =>
      intro other hother
      obtain rfl := Option.some.inj hother
      exact ⟨h.counted, h.known, h.nodup⟩

/-- When `cancel_all_non_terminal` counts a job that it changes: the job that it comes
to is not terminal, and at the write it is not cancelled. -/
def Call.CountsChange (m : JobManager F) : Call → Prop
  | .cancelCheck (some _) _ job =>
      ∀ record, m.objects[job]? = some record → record.status.terminal = false
  | .cancelWrite (some _) _ job =>
      ∀ record, m.objects[job]? = some record → record.status ≠ .cancelled
  | _ => True

/-- … in a step of the system. -/
def CountsChange (s : System F) : Event F → Prop
  | .advance call _ => ∀ stage, s.calls[call]? = some stage → stage.CountsChange s.manager
  | _ => True

/-- **A step of a call** that counts changes only. -/
theorem Call.Sound.step (hfiled : m.Filed) (reading : Reading) {call : Call} (h : call.Sound m)
    (hcounts : call.CountsChange m) : (call.step m reading).2.Sound (call.step m reading).1 := by
  cases call with
  | cancelLookUp all jobId =>
      simp only [Call.step]
      cases hjob : m.jobs.get jobId with
      | none =>
          cases all with
          | none => trivial
          | some tally => exact (h tally rfl).skip.proceed
      | some job => exact ⟨hfiled jobId job hjob, h⟩
  | cancelCheck all jobId job =>
      simp only [Call.step]
      cases hrecord : m.objects[job]? with
      | none => exact h
      | some record =>
          cases hterminal : record.status.terminal with
          | false =>
              have hwrite : (Call.cancelWrite all jobId job).Sound m := h
              simp only [hterminal, Bool.false_eq_true, if_false]
              exact hwrite.follows (JobManager.follows_of_objects rfl fun _ _ hjob => hjob)
          | true =>
              simp only [hterminal, if_true]
              cases all with
              | none => trivial
              | some tally =>
                  have hopen := hcounts record hrecord
                  rw [hterminal] at hopen
                  cases hopen
  | cancelWrite all jobId job =>
      simp only [Call.step]
      cases hrecord : m.objects[job]? with
      | none => exact h
      | some record =>
          cases all with
          | none => trivial
          | some tally =>
              have hwrite : tally.write record job
                  = { tally with changed := tally.changed ++ [job] } :=
                if_neg (hcounts record hrecord)
              have hchange := (h.2 tally rfl).change h.1
              simp only [Option.map_some, returnFromCancel, hwrite]
              exact (hchange.follows (m.follows_update job cancelUpdate)).proceed
  | cancelAllSnapshot =>
      refine Tally.Sound.proceed ⟨rfl, fun _ hjob => absurd hjob List.not_mem_nil, ?_⟩
      exact m.jobs.nodup.map (Option.some_injective String)
  | cancelAllReturned cancelled changed => exact h
  | startCleanup => trivial
  | startDispatch => trivial
  | startFile job => trivial
  | startReturned job => trivial
  | cancelReturned job => trivial

/-- Jobs are filed under their ids, and every call is sound. -/
structure System.Sound (s : System F) : Prop where
  filed : s.manager.Filed
  calls : ∀ call ∈ s.calls, call.Sound s.manager

/-- Calls that are sound, and one more. -/
theorem System.Sound.call {s : System F} (h : s.Sound) {call : Call}
    (hcall : call.Sound s.manager) :
    ({ s with calls := s.calls ++ [call] } : System F).Sound where
  filed := h.filed
  calls := by
    intro other hother
    rcases List.mem_append.mp hother with hbefore | hlast
    · exact h.calls other hbefore
    · rwa [List.mem_singleton.mp hlast]

theorem System.Sound.follows {s : System F} (h : s.Sound) (hfollows : s.manager.Follows m') :
    ({ s with manager := m' } : System F).Sound where
  filed := h.filed.follows hfollows
  calls := fun call hcall => (h.calls call hcall).follows hfollows

theorem System.Sound.next (text : PyValue → String) {s : System F} (h : s.Sound)
    {event : Event F} (hcounts : CountsChange s event) : (s.next text event).Sound := by
  have hfollows := s.follows_next text h.filed event
  cases event with
  | start => exact h.call trivial
  | cancel jobId => exact h.call fun tally htally => by cases htally
  | cancelAllNonTerminal => exact h.call trivial
  | advance call reading =>
      simp only [System.next] at hfollows ⊢
      cases hstage : s.calls[call]? with
      | none => exact h
      | some stage =>
          rw [hstage] at hfollows
          refine ⟨h.filed.follows hfollows, fun other hother => ?_⟩
          rcases List.mem_or_eq_of_mem_set hother with hbefore | rfl
          · exact (h.calls other hbefore).follows hfollows
          · exact (h.calls stage (List.mem_of_getElem? hstage)).step h.filed reading
              (hcounts stage hstage)
  | construct job => exact h.follows hfollows
  | update job updates => exact h.follows hfollows
  | storeResult job bars => exact h.follows hfollows
  | storeFrame job frame => exact h.follows hfollows
  | deleteArtifact jobId => exact h.follows hfollows
  | cleanupExpired now => exact h.follows hfollows

/-! ## §8 Runs -/

section Runs

variable (text : PyValue → String) (maxJobs ttlSeconds : ℤ) (events : List (Event F))

/-- A new manager has nothing. -/
theorem keyed_init : (System.init maxJobs ttlSeconds : System F).manager.Keyed :=
  ⟨fun _ h => h, fun _ h => h, fun _ h => h, fun _ h => h⟩

theorem filed_init : (System.init maxJobs ttlSeconds : System F).manager.Filed := by
  intro jobId job h
  cases h

/-- **The runs that keep the invariant** are those whose steps meet `KeepsKeys`. -/
theorem keyed_run_iff :
    (∀ k, (run (System.next text) (System.init maxJobs ttlSeconds)
        (events.take k)).manager.Keyed)
      ↔ Along (System.next text) KeepsKeys (System.init maxJobs ttlSeconds) events := by
  have hinit := keyed_init (F := F) maxJobs ttlSeconds
  rw [← along_next_iff (P := fun s : System F => s.manager.Keyed) hinit]
  refine along_iff (I := fun s => s.manager.Filed ∧ s.manager.Keyed) ?_ ?_
    ⟨filed_init maxJobs ttlSeconds, hinit⟩
  · intro s event h
    exact keyed_next_iff text h.1 h.2 event
  · intro s event h hnext
    exact ⟨h.1.follows (s.follows_next text h.1 event), hnext⟩

/-- **Every task runs a job that is filed or about to be**, in every run. -/
theorem tasksAwaited_run :
    (run (System.next text) (System.init maxJobs ttlSeconds) events).TasksAwaited := by
  have hrun := run_seen (I := fun (s : System F) _ => s.manager.Filed ∧ s.TasksAwaited)
    (fun s _ event h => ⟨h.1.follows (s.follows_next text h.1 event), h.2.next text h.1 event⟩)
    ⟨filed_init maxJobs ttlSeconds, fun _ h => by cases h⟩ events
  exact hrun.2

/-- Along the runs that count changes only, every call is sound. -/
theorem sound_run
    (h : Along (System.next text) CountsChange (System.init maxJobs ttlSeconds) events) :
    (run (System.next text) (System.init maxJobs ttlSeconds) events).Sound :=
  h.invariant (fun _ _ hs hcounts => hs.next text hcounts)
    ⟨filed_init maxJobs ttlSeconds, fun _ hcall => by cases hcall⟩

/-- **What the manager keeps and counts.** In every state of a run, tasks, results,
frames and metadata are kept for filed jobs only, exactly when every step of the run
meets `KeepsKeys`; without any condition, a task is kept for a job that is filed or that a call
of `start` is about to file; and where every step meets `CountsChange`, a call of
`cancel_all_non_terminal` that has returned has counted the jobs that it changed. -/
theorem keys_and_counts_of_run :
    ((∀ k, (run (System.next text) (System.init maxJobs ttlSeconds)
        (events.take k)).manager.Keyed)
      ↔ Along (System.next text) KeepsKeys (System.init maxJobs ttlSeconds) events)
    ∧ (∀ k, (run (System.next text) (System.init maxJobs ttlSeconds)
        (events.take k)).TasksAwaited)
    ∧ (Along (System.next text) CountsChange (System.init maxJobs ttlSeconds) events →
      ∀ k cancelled changed, .cancelAllReturned cancelled changed
        ∈ (run (System.next text) (System.init maxJobs ttlSeconds) (events.take k)).calls →
          cancelled = changed.length ∧ changed.Nodup) := by
  refine ⟨keyed_run_iff text maxJobs ttlSeconds events,
    fun k => tasksAwaited_run text maxJobs ttlSeconds (events.take k), ?_⟩
  intro hcounts k cancelled changed hreturned
  have hsound := sound_run text maxJobs ttlSeconds (events.take k) (hcounts.take k)
  exact hsound.calls _ hreturned

end Runs

/-- A limit of one job: a job is completed, its frame is stored, and the next job
evicts it. The next job is completed as well, and then all jobs are cancelled. -/
def evictingRun : List (Event Unit) :=
  [.start, .advance 0 { now := 0 }, .advance 0 { now := 1, jobId := "a" },
    .advance 0 { now := 2 }, .storeFrame 0 (), .storeResult 0 [],
    .update 0 { status := some .completed },
    .start, .advance 1 { now := 3 }, .advance 1 { now := 4, jobId := "b" },
    .advance 1 { now := 5 }, .update 1 { status := some .completed },
    .cancelAllNonTerminal, .advance 2 { now := 6 }, .advance 2 { now := 7 },
    .advance 2 { now := 8 }]

/-- The evicted job leaves its frame, and a completed job is counted as cancelled. -/
theorem evicted_job_leaves_frame :
    ¬ (run (System.next fun _ => "") (System.init 1 3600) evictingRun).manager.Keyed
      ∧ .cancelAllReturned 1 []
        ∈ (run (System.next fun _ => "") (System.init 1 3600) evictingRun).calls := by
  constructor
  · intro h
    exact absurd (h.frames "a" (by decide)) (by decide)
  · decide

end Finbar.IndicatorJobs.Manager
