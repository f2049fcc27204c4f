/-
Finbar.IndicatorJobs.RetentionTheorems — which jobs the manager forgets.

A job leaves the manager when it is deleted, when it has expired, or when the next job is
filed over the limit (`Forgets`, `forgets_of_next`). The last two concern terminal jobs only,
and among those over the limit the oldest go first. So an unfinished job that nobody deletes
is found in every later state of every run (`retention_of_run`).

No `sorry`, no `axiom`.
-/
import Finbar.IndicatorJobs.ManagerTheorems
import Finbar.Lib.Eviction

namespace Finbar.IndicatorJobs.Manager

open Lib Lib.Python Lib.Steps

variable {F : Type} {m m' : JobManager F} {jobId : String}

/-! ## §1 Over the limit -/

namespace JobManager

/-- The job object that is filed under an id. -/
def record (m : JobManager F) (jobId : String) : Option Job :=
  (m.jobs.get jobId).bind fun job => m.objects[job]?

theorem Filed.jobId_eq (h : m.Filed) {record : Job} (hrecord : m.record jobId = some record) :
    record.jobId = jobId := by
  obtain ⟨job, hjob, hobject⟩ := Option.bind_eq_some_iff.mp hrecord
  have hid := h jobId job hjob
  rw [idOf_of_getElem? hobject] at hid
  exact Option.some.inj hid

theorem mem_filedJobs_iff (h : m.Filed) {record : Job} :
    record ∈ m.filedJobs ↔ m.record record.jobId = some record := by
  constructor
  · intro hmem
    obtain ⟨entry, hentry, hrecord⟩ := List.mem_filterMap.mp hmem
    have hget := @OrderedDict.get_of_mem _ _ _ m.jobs entry.1 entry.2 hentry
    have hid : record.jobId = entry.1 := by
      have hidOf := h entry.1 entry.2 hget
      rw [idOf_of_getElem? hrecord] at hidOf
      exact Option.some.inj hidOf
    rw [hid]
    exact Option.bind_eq_some_iff.mpr ⟨entry.2, hget, hrecord⟩
  · intro hrecord
    obtain ⟨job, hjob, hobject⟩ := Option.bind_eq_some_iff.mp hrecord
    exact List.mem_filterMap.mpr ⟨(record.jobId, job), OrderedDict.mem_of_get hjob, hobject⟩

/-- The terminal jobs that are filed, the oldest first. -/
def terminalJobs (m : JobManager F) : List Job :=
  m.removable.filter fun job => job.status.terminal

theorem mem_terminalJobs_iff (h : m.Filed) {record : Job} :
    record ∈ m.terminalJobs ↔ m.record record.jobId = some record ∧ record.status.terminal := by
  rw [terminalJobs, List.mem_filter, removable, List.mem_insertionSort, mem_filedJobs_iff h]

theorem pairwise_terminalJobs (m : JobManager F) :
    m.terminalJobs.Pairwise fun job job' => job.createdAt ≤ job'.createdAt := by
  have hsorted := List.pairwise_insertionSort
    (fun job job' : Job => job.createdAt ≤ job'.createdAt) m.filedJobs
  exact hsorted.filter _

/-- **Which jobs are evicted**: terminal ones, and none that is newer than one that stays. -/
theorem evicted_of_overflow (h : m.Filed) (hmem : jobId ∈ m.overflow) :
    m.maxJobs < m.jobs.items.length ∧ ∃ record, m.record jobId = some record ∧
      record.status.terminal ∧ ∀ other kept, other ∉ m.overflow → m.record other = some kept →
        kept.status.terminal → record.createdAt ≤ kept.createdAt := by
  obtain ⟨record, htake, rfl⟩ := List.mem_map.mp hmem
  have hterminal := (mem_terminalJobs_iff h).mp (List.mem_of_mem_take htake)
  refine ⟨?_, record, hterminal.1, hterminal.2, ?_⟩
  · have hpos : 0 < m.jobs.items.length - m.maxJobs := by
      rcases Nat.eq_zero_or_pos (m.jobs.items.length - m.maxJobs) with hzero | hpos
      · rw [hzero, List.take_zero] at htake
        cases htake
      · exact hpos
    omega
  · intro other kept hstays hkept hdone
    have hid := h.jobId_eq hkept
    have hmem : kept ∈ m.terminalJobs := by
      rw [mem_terminalJobs_iff h, hid]
      exact ⟨hkept, hdone⟩
    have hsorted := m.pairwise_terminalJobs
    rw [← List.take_append_drop (m.jobs.items.length - m.maxJobs) m.terminalJobs] at hsorted hmem
    rcases List.mem_append.mp hmem with htaken | hdropped
    · exact absurd (List.mem_map.mpr ⟨kept, htaken, hid⟩) hstays
    · exact (List.pairwise_append.mp hsorted).2.2 record htake kept hdropped

theorem record_evictAll {jobIds : List String} {record : Job} :
    (m.evictAll jobIds).record jobId = some record ↔
      jobId ∉ jobIds ∧ m.record jobId = some record := by
  unfold JobManager.record evictAll
  rw [Lib.Eviction.get_eraseAll]
  by_cases hmem : jobId ∈ jobIds
  · simp [hmem]
  · simp [hmem]

/-- **What stays** is no more than the limit, or unfinished. -/
theorem length_enforceMaxJobs (h : m.Filed) :
    m.enforceMaxJobs.jobs.items.length ≤ m.maxJobs ∨
      ∀ jobId record, m.enforceMaxJobs.record jobId = some record → ¬record.status.terminal := by
  rw [enforceMaxJobs_eq h]
  by_cases hall : m.terminalJobs.length ≤ m.jobs.items.length - m.maxJobs
  · -- every terminal job is evicted
    refine .inr fun jobId record hrecord hterminal => ?_
    obtain ⟨hstays, hfiled⟩ := record_evictAll.mp hrecord
    have hid := h.jobId_eq hfiled
    refine hstays (List.mem_map.mpr ⟨record, ?_, hid⟩)
    have hmem : record ∈ m.terminalJobs := by
      rw [mem_terminalJobs_iff h, hid]
      exact ⟨hfiled, hterminal⟩
    show record ∈ m.terminalJobs.take _
    rwa [List.take_of_length_le hall]
  · left
    have hkeys : ∀ key ∈ m.overflow, key ∈ m.jobs.keys := by
      intro key hkey
      obtain ⟨-, record, hrecord, -⟩ := evicted_of_overflow h hkey
      obtain ⟨job, hjob, -⟩ := Option.bind_eq_some_iff.mp hrecord
      exact OrderedDict.mem_keys.mpr ⟨job, hjob⟩
    have hnodup : m.overflow.Nodup := by
      have hperm := map_removable_perm h
      refine (hperm.nodup_iff.mpr m.jobs.nodup).sublist ?_
      exact ((List.take_sublist _ _).trans List.filter_sublist).map _
    have hlength : m.overflow.length = m.jobs.items.length - m.maxJobs := by
      have htake : m.overflow.length =
          (m.terminalJobs.take (m.jobs.items.length - m.maxJobs)).length := List.length_map _
      rw [htake, List.length_take]
      omega
    have herased := Lib.Eviction.length_eraseAll hnodup hkeys
    show (m.jobs.eraseAll m.overflow).items.length ≤ m.maxJobs
    omega

/-- **Which jobs expire.** -/
theorem expired_of_mem {cutoff : ℤ} (hmem : jobId ∈ m.expired cutoff) :
    ∃ record, m.record jobId = some record ∧ record.status.terminal ∧ record.createdAt < cutoff := by
  obtain ⟨entry, hentry, rfl⟩ := List.mem_map.mp hmem
  obtain ⟨hitem, hexpired⟩ := List.mem_filter.mp hentry
  have hget := @OrderedDict.get_of_mem _ _ _ m.jobs entry.1 entry.2 hitem
  cases hrecord : m.objects[entry.2]? with
  | none =>
      rw [hrecord] at hexpired
      cases hexpired
  | some record =>
      rw [hrecord] at hexpired
      obtain ⟨hterminal, hold⟩ := Bool.and_eq_true_iff.mp hexpired
      exact ⟨record, Option.bind_eq_some_iff.mpr ⟨entry.2, hget, hrecord⟩, hterminal,
        of_decide_eq_true hold⟩

end JobManager

/-! ## §2 What a step forgets -/

/-- The step cleans up, at a time. -/
def System.Cleans (s : System F) (event : Event F) (now : ℤ) : Prop :=
  event = .cleanupExpired now ∨
    ∃ call reading, event = .advance call reading ∧ s.calls[call]? = some .startCleanup ∧
      reading.now = now

/-- The step files a job. -/
def System.Files (s : System F) (event : Event F) (job : JobRef) : Prop :=
  ∃ call reading, event = .advance call reading ∧ s.calls[call]? = some (.startFile job)

/-- The ways a job leaves the manager. -/
inductive Forgets (text : PyValue → String) (s : System F) (event : Event F) (jobId : String) :
    Prop where
  | deleted (delete : event = .deleteArtifact jobId)
  | expired (now : ℤ) (record : Job) (cleans : s.Cleans event now)
      (filed : s.manager.record jobId = some record) (terminal : record.status.terminal)
      (old : record.createdAt < now - s.manager.ttl)
  | evicted (job : JobRef) (record : Job) (files : s.Files event job)
      (full : s.manager.maxJobs < (s.manager.file job).jobs.items.length)
      (filed : (s.manager.file job).record jobId = some record)
      (terminal : record.status.terminal)
      (oldest : ∀ other kept, (s.next text event).manager.record other = some kept →
        kept.status.terminal → record.createdAt ≤ kept.createdAt)

theorem expired_of_cleanup {now : ℤ} (hmem : jobId ∈ m.jobs.keys)
    (hgone : jobId ∉ (m.cleanupExpired now).jobs.keys) : jobId ∈ m.expired (now - m.ttl) := by
  unfold JobManager.cleanupExpired at hgone
  rw [JobManager.foldl_remove] at hgone
  by_contra hkept
  exact hgone (OrderedDict.mem_keys_eraseAll.mpr ⟨hkept, hmem⟩)

theorem JobManager.maxJobs_file (m : JobManager F) (job : JobRef) :
    (m.file job).maxJobs = m.maxJobs := by
  unfold JobManager.file
  split <;> rfl

theorem JobManager.objects_file (m : JobManager F) (job : JobRef) :
    (m.file job).objects = m.objects := by
  unfold JobManager.file
  split <;> rfl

theorem JobManager.mem_objects_of_record {record : Job} (h : m.record jobId = some record) :
    record ∈ m.objects := by
  obtain ⟨job, -, hobject⟩ := Option.bind_eq_some_iff.mp h
  exact List.mem_of_getElem? hobject

theorem JobManager.mem_keys_file_of_mem {job : JobRef} (hmem : jobId ∈ m.jobs.keys) :
    jobId ∈ (m.file job).jobs.keys := by
  unfold JobManager.file
  split
  · exact hmem
  · exact OrderedDict.mem_keys_assign.mpr (.inr hmem)

/-- **The step lemma**: a job that leaves is deleted, expired or evicted. -/
theorem forgets_of_next (text : PyValue → String) {s : System F} (hfiled : s.manager.Filed)
    {event : Event F} (hmem : jobId ∈ s.manager.jobs.keys)
    (hgone : jobId ∉ (s.next text event).manager.jobs.keys) : Forgets text s event jobId := by
  cases event with
  | construct job => exact absurd hmem hgone
  | update job updates => exact absurd hmem hgone
  | storeResult job bars =>
      refine absurd hmem ?_
      simp only [System.next, JobManager.storeResult] at hgone
      split at hgone <;> exact hgone
  | storeFrame job frame =>
      refine absurd hmem ?_
      simp only [System.next, JobManager.storeFrame] at hgone
      split at hgone <;> exact hgone
  | deleteArtifact other =>
      have heq : jobId = other := by
        by_contra hne
        exact hgone (OrderedDict.mem_keys_erase.mpr ⟨hne, hmem⟩)
      exact .deleted (heq ▸ rfl)
  | cleanupExpired now =>
      obtain ⟨record, hrecord, hterminal, hold⟩ :=
        JobManager.expired_of_mem (expired_of_cleanup hmem hgone)
      exact .expired now record (.inl rfl) hrecord hterminal hold
  | start => exact absurd hmem hgone
  | cancel other => exact absurd hmem hgone
  | cancelAllNonTerminal => exact absurd hmem hgone
  | advance call reading =>
      cases hstage : s.calls[call]? with
      | none =>
          simp only [System.next, hstage] at hgone
          exact absurd hmem hgone
      | some stage =>
          have hnext : (s.next text (.advance call reading)).manager =
              (stage.step s.manager reading).1 := by
            simp only [System.next, hstage]
          rw [hnext] at hgone
          cases stage with
          | startCleanup =>
              obtain ⟨record, hrecord, hterminal, hold⟩ :=
                JobManager.expired_of_mem (expired_of_cleanup hmem hgone)
              exact .expired reading.now record (.inr ⟨call, reading, rfl, hstage, rfl⟩) hrecord
                hterminal hold
          | startDispatch => exact absurd hmem hgone
          | startFile job =>
              have hfile := hfiled.follows (s.manager.follows_file job)
              simp only [Call.step, JobManager.enforceMaxJobs_eq hfile] at hgone hnext
              have hover : jobId ∈ (s.manager.file job).overflow := by
                by_contra hkept
                exact hgone (OrderedDict.mem_keys_eraseAll.mpr
                  ⟨hkept, JobManager.mem_keys_file_of_mem hmem⟩)
              obtain ⟨hlimit, record, hrecord, hterminal, holdest⟩ :=
                JobManager.evicted_of_overflow hfile hover
              rw [JobManager.maxJobs_file] at hlimit
              refine .evicted job record ⟨call, reading, rfl, hstage⟩ hlimit hrecord hterminal ?_
              intro other kept hkept
              rw [hnext, JobManager.record_evictAll] at hkept
              exact holdest other kept hkept.1 hkept.2
          | _ =>
              rw [(Call.sameMaps_step reading (by simp) (by simp) (by simp)).jobs] at hgone
              exact absurd hmem hgone

theorem JobManager.maxJobs_enforceMaxJobs (h : m.Filed) :
    m.enforceMaxJobs.maxJobs = m.maxJobs := by
  rw [JobManager.enforceMaxJobs_eq h]
  rfl

/-- A step that files a job leaves no more than the limit, or unfinished jobs only. -/
theorem length_of_files (text : PyValue → String) {s : System F} (hfiled : s.manager.Filed)
    {event : Event F} {job : JobRef} (hfiles : s.Files event job) :
    (s.next text event).manager.jobs.items.length ≤ (s.next text event).manager.maxJobs ∨
      ∀ jobId record, (s.next text event).manager.record jobId = some record →
        ¬record.status.terminal := by
  obtain ⟨call, reading, rfl, hstage⟩ := hfiles
  have hnext : (s.next text (.advance call reading)).manager =
      (s.manager.file job).enforceMaxJobs := by
    simp only [System.next, hstage, Call.step]
  have hfile := hfiled.follows (s.manager.follows_file job)
  rw [hnext, JobManager.maxJobs_enforceMaxJobs hfile]
  exact JobManager.length_enforceMaxJobs hfile

/-! ## §3 Runs -/

section Runs

variable (text : PyValue → String) (maxJobs ttlSeconds : ℤ) (events : List (Event F))

/-- The state after some steps of a run. -/
def stateAt (k : ℕ) : System F :=
  run (System.next text) (System.init maxJobs ttlSeconds) (events.take k)

theorem stateAt_succ (k : ℕ) : stateAt text maxJobs ttlSeconds events (k + 1) =
    match events[k]? with
    | none => stateAt text maxJobs ttlSeconds events k
    | some event => (stateAt text maxJobs ttlSeconds events k).next text event := by
  unfold stateAt
  rw [List.take_add_one, run_append]
  cases events[k]? <;> rfl

theorem filed_stateAt (k : ℕ) : (stateAt text maxJobs ttlSeconds events k).manager.Filed := by
  induction k with
  | zero => exact filed_init maxJobs ttlSeconds
  | succ k ih =>
      rw [stateAt_succ]
      split
      · exact ih
      · exact ih.follows (System.follows_next text ih _)

/-- **Unfinished jobs are kept**: a job that no step deletes and that is never seen terminal
is filed later on. -/
theorem unfinished_kept {k l : ℕ} (hle : k ≤ l)
    (hmem : jobId ∈ (stateAt text maxJobs ttlSeconds events k).manager.jobs.keys)
    (hkept : ∀ n, k ≤ n → n < l → events[n]? ≠ some (.deleteArtifact jobId) ∧
      ∀ record ∈ (stateAt text maxJobs ttlSeconds events n).manager.objects,
        record.jobId = jobId → ¬record.status.terminal) :
    jobId ∈ (stateAt text maxJobs ttlSeconds events l).manager.jobs.keys := by
  induction l, hle using Nat.le_induction with
  | base => exact hmem
  | succ l hle ih =>
      have hbefore := ih fun n hkn hnl => hkept n hkn (by omega)
      obtain ⟨hdelete, hopen⟩ := hkept l hle (Nat.lt_succ_self l)
      have hfiled := filed_stateAt text maxJobs ttlSeconds events l
      rw [stateAt_succ]
      cases hevent : events[l]? with
      | none => exact hbefore
      | some event =>
          by_contra hgone
          cases forgets_of_next text hfiled hbefore hgone with
          | deleted heq => exact hdelete (hevent.trans (congrArg some heq))
          | expired now record _ hrecord hterminal _ =>
              exact hopen record (JobManager.mem_objects_of_record hrecord)
                (hfiled.jobId_eq hrecord) hterminal
          | evicted job record _ _ hrecord hterminal _ =>
              have hfile := hfiled.follows (JobManager.follows_file _ job)
              have hobject := JobManager.mem_objects_of_record hrecord
              rw [JobManager.objects_file] at hobject
              exact hopen record hobject (hfile.jobId_eq hrecord) hterminal

/-- **What the manager forgets.** In every run: a job leaves the manager only when it is
deleted, or when it is terminal and either expired or among the oldest over the limit as the
next job is filed; a filing leaves no more jobs than the limit, or unfinished ones only; and a
job that is filed, that nobody deletes and that is not seen terminal stays filed. -/
theorem retention_of_run :
    (∀ k event jobId, events[k]? = some event →
      jobId ∈ (stateAt text maxJobs ttlSeconds events k).manager.jobs.keys →
      jobId ∉ (stateAt text maxJobs ttlSeconds events (k + 1)).manager.jobs.keys →
        Forgets text (stateAt text maxJobs ttlSeconds events k) event jobId) ∧
    (∀ k event job, events[k]? = some event →
      (stateAt text maxJobs ttlSeconds events k).Files event job →
        let m := (stateAt text maxJobs ttlSeconds events (k + 1)).manager
        m.jobs.items.length ≤ m.maxJobs ∨
          ∀ jobId record, m.record jobId = some record → ¬record.status.terminal) ∧
    ∀ k l jobId, k ≤ l →
      jobId ∈ (stateAt text maxJobs ttlSeconds events k).manager.jobs.keys →
      (∀ n, k ≤ n → n < l → events[n]? ≠ some (.deleteArtifact jobId) ∧
        ∀ record ∈ (stateAt text maxJobs ttlSeconds events n).manager.objects,
          record.jobId = jobId → ¬record.status.terminal) →
      jobId ∈ (stateAt text maxJobs ttlSeconds events l).manager.jobs.keys := by
  refine ⟨fun k event jobId hevent hmem hgone => ?_, fun k event job hevent hfiles => ?_,
    fun k l jobId hle hmem hkept => unfinished_kept text maxJobs ttlSeconds events hle hmem hkept⟩
  · rw [stateAt_succ, hevent] at hgone
    exact forgets_of_next text (filed_stateAt text maxJobs ttlSeconds events k) hmem hgone
  · have hfiled := filed_stateAt text maxJobs ttlSeconds events k
    rw [stateAt_succ, hevent]
    exact length_of_files text hfiled hfiles

end Runs

end Finbar.IndicatorJobs.Manager
