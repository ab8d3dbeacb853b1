import DailyScheduler.Execution.Others
import DailyScheduler.Execution.Performs
import DailyScheduler.Lib.Invariant
import DailyScheduler.Queues.Dequeue

set_option autoImplicit false

/-! # A started job is in the active registry

`prepare_for_execution` adds a job to the active registry of its queue with the end of its timeout
as the score. Reading a registry with `count` or `all` drops the entries whose score has come, and so
does `clean_registries` whenever it has failed a job; neither looks at the jobs it drops. So a job
stays in the active registry as long as no reading comes at or after its score and `clean_registries`
either fails it or fails no job at all.
-/

namespace DailyScheduler.Started

open AtomicProg

/-- The job is STARTED and belongs to the queue. -/
def Runs (q : QueueName) (n : JobName) (w : World) : Prop :=
  w.status n = some .started ∧ w.storedField n .queueName = some q

/-- If the job's record is STARTED, the job is in the active registry of its queue. -/
def Tracked (n : JobName) (w : World) : Prop :=
  w.status n = some .started →
    ∃ q, w.storedField n .queueName = some q ∧ w.inRegistry q .active n

/-- The job is recorded as failed, in the failed registry of the queue. -/
def Reported (q : QueueName) (n : JobName) (w : World) : Prop :=
  w.status n = some .failed ∧ w.inRegistry q .failed n

/-- The job is STARTED and the end of its timeout, its score, is not after `T`. -/
def Overdue (q : QueueName) (T : Int) (n : JobName) (w : World) : Prop :=
  Runs q n w ∧ ∃ s, (w.registry q .active).score n = some s ∧ 0 ≤ s ∧ s ≤ T

/-- The job is not STARTED. -/
def Idle (n : JobName) (w : World) : Prop := w.status n ≠ some .started

section States

variable {n : JobName} {w w' : World} {q : QueueName}

theorem status_congr (h : w'.jobs.find? n = w.jobs.find? n) : w'.status n = w.status n := by
  unfold World.status
  rw [h]

theorem field_congr (h : w'.jobs.find? n = w.jobs.find? n) (f : JobField) :
    w'.storedField n f = w.storedField n f := by
  unfold World.storedField
  rw [h]

theorem idle_of_find? (h : w'.jobs.find? n = w.jobs.find? n) (hi : Idle n w) : Idle n w' := by
  unfold Idle at hi ⊢
  rwa [status_congr h]

theorem Idle.tracked (h : Idle n w) : Tracked n w := fun hs => absurd hs h

theorem Runs.congr (h : w'.jobs.find? n = w.jobs.find? n) : Runs q n w' ↔ Runs q n w := by
  unfold Runs
  rw [status_congr h, field_congr h]

theorem Runs.queue {q' : QueueName} (h : Runs q n w) (h' : Runs q' n w) : q' = q :=
  Option.some.inj (h'.2.symm.trans h.2)

/-- A job that runs is in the active registry. -/
theorem Tracked.active (h : Tracked n w) (hruns : Runs q n w) : w.inRegistry q .active n := by
  obtain ⟨q', hq', hin⟩ := h hruns.1
  rw [hruns.2] at hq'
  cases hq'
  exact hin

/-- The job is in the active registry of the queue that its record names. -/
def InRun (q : QueueName) (n : JobName) (w : World) : Prop :=
  w.storedField n .queueName = some q ∧ w.inRegistry q .active n

theorem InRun.tracked (h : InRun q n w) : Tracked n w := fun _ => ⟨q, h⟩

theorem Tracked.inRun (h : Tracked n w) (hruns : Runs q n w) : InRun q n w :=
  ⟨hruns.2, h.active hruns⟩

end States

/-! ## Leaving a job alone -/

/-- The job is left alone: an idle job is not started, a record is kept, and so are the entries in the
active and the failed registries. -/
structure Spares (n : JobName) (w w' : World) : Prop where
  idle : Idle n w → Idle n w'
  record : ∀ v, w.jobs.find? n = some v → w'.jobs.find? n = some v
  score : ∀ q k s, k = .active ∨ k = .failed → (w.registry q k).score n = some s →
    (w'.registry q k).score n = some s
  clock : w'.now = w.now

abbrev SparesStep (n : JobName) (w w' : World) (_ : List Event) : Prop := Spares n w w'

section Frame

variable {n m : JobName} {w w' : World}

theorem Spares.of_same (hfind : w'.jobs.find? n = w.jobs.find? n)
    (hscore : ∀ q k, k = .active ∨ k = .failed →
      (w'.registry q k).score n = (w.registry q k).score n) (hclock : w'.now = w.now) :
    Spares n w w' where
  idle := idle_of_find? hfind
  record := fun _ hv => hfind.trans hv
  score := fun q k _ hk hs => (hscore q k hk).trans hs
  clock := hclock

theorem Spares.of_registry (hfind : w'.jobs.find? n = w.jobs.find? n)
    (hreg : w'.registry = w.registry) (hclock : w'.now = w.now) : Spares n w w' :=
  .of_same hfind (fun q k _ => by rw [hreg]) hclock

theorem Spares.refl (w : World) : Spares n w w := .of_registry rfl rfl rfl

theorem Spares.zadd (q : QueueName) (k : RegistryKind) (s : Int) (h : m ≠ n) :
    Spares n w (w.zadd q k m s) :=
  .of_same rfl (fun q' k' _ => by rw [World.score_zadd, if_neg fun h' => h h'.2.2.symm]) rfl

theorem Spares.zrem (q : QueueName) (k : RegistryKind) (h : m ≠ n) : Spares n w (w.zrem q k m) :=
  .of_same rfl (fun q' k' _ => by rw [World.score_zrem, if_neg fun h' => h h'.2.2.symm]) rfl

theorem Spares.trans {w'' : World} (h : Spares n w w') (h' : Spares n w' w'') : Spares n w w'' where
  idle := h'.idle ∘ h.idle
  record := fun v hv => h'.record v (h.record v hv)
  score := fun q k s hk hs => h'.score q k s hk (h.score q k s hk hs)
  clock := h'.clock.trans h.clock

/-- A field that is stored stays as it is. -/
theorem Spares.field {f : JobField} {x : f.Ty} (h : Spares n w w')
    (hf : w.storedField n f = some x) : w'.storedField n f = some x := by
  obtain ⟨v, hv, hx⟩ := Option.bind_eq_some_iff.1 hf
  unfold World.storedField
  rw [h.record v hv]
  exact hx

theorem Spares.member {q : QueueName} (h : Spares n w w') (hin : w.inRegistry q .active n) :
    w'.inRegistry q .active n := by
  obtain ⟨s, hscore⟩ := (SortedSet.mem_iff_exists _ _).1 hin
  exact (SortedSet.mem_iff_exists _ _).2 ⟨s, h.score q .active s (Or.inl rfl) hscore⟩

theorem spares_of_execStep {q : QueueName} {es : List Event} (h : ExecStep q m w w' es)
    (hm : m ≠ n) : Spares n w w' := by
  cases h with
  | add k s => exact .zadd q k s hm
  | remove => exact .zrem q .active hm
  | save j sa hj =>
      have hne : n ≠ j.name := fun h => hm (hj ▸ h.symm)
      exact .of_registry (World.find?_saveJob_of_ne w j sa hne) rfl rfl
  | persist => exact .of_registry (TtlMap.find?_persist _ _ _) rfl rfl
  | _ => exact .of_registry rfl rfl rfl

theorem spares_of_expireStep {es : List Event} (h : ExpireStep m w w' es) (hm : m ≠ n) :
    Spares n w w' := by
  cases h with
  | expire d => exact .of_registry (TtlMap.find?_expireAt _ _ _ _) rfl rfl
  | delete =>
      refine .of_registry ?_ rfl rfl
      show (w.jobs.erase m).find? n = _
      rw [TtlMap.find?_erase, if_neg fun h => hm h.symm]

/-- Operations on other jobs leave the job alone. -/
theorem others {env : Env} (hU : UserCode env (SparesStep n)) : Others env n (SparesStep n) where
  same := .refl
  called := fun w _ _ => .refl w
  exec := fun _ _ _ _ _ hm hs => spares_of_execStep hs hm
  expire := fun _ _ _ _ hm hs => spares_of_expireStep hs hm
  push := fun _ q _ s hm => (Spares.zrem q .scheduled hm).trans (.zadd q .queued s hm)
  schedule := fun _ q _ s hm => .zadd q .scheduled s hm
  user := hU

theorem Spares.inRun {q : QueueName} (h : Spares n w w') (hw : InRun q n w) : InRun q n w' :=
  ⟨h.field hw.1, h.member hw.2⟩

/-- A job that is left alone stays where it is. -/
theorem Spares.tracked (h : Spares n w w') (hw : Tracked n w) : Tracked n w' := by
  by_cases hs : w.status n = some .started
  · obtain ⟨q, hin⟩ := hw hs
    exact (h.inRun hin).tracked
  · exact (h.idle hs).tracked

theorem Spares.of_drawn (h : Drawn w w') : Spares n w w' := by
  refine .of_same (by rw [h.jobs]) (fun q k hk => ?_) h.now
  rw [h.registry q k]
  rintro rfl
  rcases hk with hk | hk <;> cases hk

end Frame

/-- A program that leaves the job alone keeps it tracked. -/
theorem tracked_of_steps {n : JobName} {α : Type} {p : Py α} {Q : α → Prop}
    (h : p.Steps (SparesStep n) Q) {w : World} (hw : Tracked n w) : Tracked n (p.exec w) :=
  h.exec (fun _ _ _ hs => hs.tracked) hw

/-! ## The ends of an execution -/

section Ends

variable {env : Env} {n : JobName} {w : World} {q : Queue} {j : JobModel}

theorem idle_saveJob {sa : Bool} (h : Idle n w) (hj : j.status ≠ .started) :
    Idle n (w.saveJob j sa) := by
  unfold Idle
  rw [World.status_saveJob]
  split
  · exact fun hs => hj (Option.some.inj hs)
  · exact h

/-- A save that writes the status. -/
theorem idle_of_saveJob {sa : Bool} (hn : j.name = n) (hw : j.written sa .status = true)
    (hj : j.status ≠ .started) : Idle n (w.saveJob j sa) := by
  unfold Idle
  rw [World.status_saveJob, if_pos ⟨hn.symm, hw⟩]
  exact fun hs => hj (Option.some.inj hs)

theorem written_status_ended (j : JobModel) (status : JobStatus) (now : Int) :
    (j.ended status now).written false .status = true := by
  simp [JobModel.written, JobModel.ended, JobModel.setStatus, JobModel.setEndedAt,
    JobModel.setLastHeartbeat]

theorem idle_endedWorld {k : RegistryKind} {ttl : Int} {status : JobStatus}
    (hs : status ≠ .started) (h : j.name = n ∨ Idle n w) :
    Idle n (q.endedWorld k j ttl status w) := by
  unfold Queue.endedWorld
  by_cases hn : j.name = n
  · exact idle_of_saveJob hn (written_status_ended j status w.now) hs
  · refine idle_saveJob (idle_of_find? ?_ (h.resolve_left hn)) hs
    rw [JobModel.moved_jobs]

/-- A job whose end is stored is idle. -/
theorem idle_success (hser : j.serializable = true) (v : PyValue) (ttl resultTtl : Int)
    (h : j.name = n ∨ Idle n w) : Idle n ((q.jobHandleSuccess j v ttl resultTtl).exec w) := by
  rw [Prog.exec_eq_of_run (Queue.run_jobHandleSuccess q hser v ttl resultTtl w)]
  have hended : Idle n (q.endedWorld .finished j ttl .finished w) :=
    idle_endedWorld (by simp) h
  refine idle_of_find? ?_ hended
  rw [resultWorld_jobs]

theorem idle_failure {status : JobStatus} (hs : status ≠ .started)
    (hser : j.serializable = true) (exc : String) (h : j.name = n ∨ Idle n w) :
    Idle n ((q.jobHandleFailure env status j exc).exec w) := by
  rw [Prog.exec_eq_of_run (Queue.run_jobHandleFailure env q status hser exc w)]
  have hended : Idle n (q.endedWorld .failed j env.config.DEFAULT_FAILURE_TTL status w) :=
    idle_endedWorld hs h
  refine idle_of_find? ?_ hended
  rw [resultWorld_jobs]

/-- An end that cannot be stored changes no record. -/
theorem jobs_success_error (hser : j.serializable = false) (v : PyValue) (ttl resultTtl : Int) :
    ((q.jobHandleSuccess j v ttl resultTtl).exec w).jobs = w.jobs := by
  rw [Prog.exec_eq_of_run (Queue.run_jobHandleSuccess_error q hser v ttl resultTtl w)]
  exact JobModel.moved_jobs _ _ _ _ _

theorem jobs_failure_error (hser : j.serializable = false) (status : JobStatus) (exc : String) :
    ((q.jobHandleFailure env status j exc).exec w).jobs = w.jobs := by
  rw [Prog.exec_eq_of_run (Queue.run_jobHandleFailure_error env q status hser exc w)]
  exact JobModel.moved_jobs _ _ _ _ _

/-- An idle job is not started by the end of an execution, stored or not. -/
theorem Idle.failure {status : JobStatus} (hs : status ≠ .started) (exc : String)
    (h : Idle n w) : Idle n ((q.jobHandleFailure env status j exc).exec w) := by
  cases hser : j.serializable with
  | true => exact idle_failure hs hser exc (Or.inr h)
  | false => exact idle_of_find? (by rw [jobs_failure_error hser]) h

theorem Idle.success (v : PyValue) (ttl resultTtl : Int) (h : Idle n w) :
    Idle n ((q.jobHandleSuccess j v ttl resultTtl).exec w) := by
  cases hser : j.serializable with
  | true => exact idle_success hser v ttl resultTtl (Or.inr h)
  | false => exact idle_of_find? (by rw [jobs_success_error hser]) h

theorem Idle.expired (ttl : Int) (h : Idle n w) : Idle n (j.expired ttl w) := by
  unfold JobModel.expired
  split
  · by_cases hn : n = j.name
    · subst hn
      unfold Idle World.status World.deleteJob
      rw [TtlMap.find?_erase, if_pos rfl]
      simp
    · refine idle_of_find? ?_ h
      show (w.jobs.erase j.name).find? n = _
      rw [TtlMap.find?_erase, if_neg hn]
  · split
    · exact idle_of_find? (TtlMap.find?_expireAt _ _ _ _) h
    · exact h

/-- The end of an execution moves entries of its own queue only. -/
theorem score_moved_of_ne {q' : QueueName} (hq : q' ≠ q.name) (k : RegistryKind) (ttl : Int) :
    ((j.moved ttl q.activeJobRegistry ⟨q.name, k⟩ w).registry q' .active).score n
      = (w.registry q' .active).score n := by
  have hzrem : ((w.zrem q.name .active j.name).registry q' .active).score n
      = (w.registry q' .active).score n := by
    rw [World.score_zrem, if_neg fun h => hq h.1]
  unfold JobModel.moved
  dsimp only
  split
  · exact hzrem
  · refine Eq.trans ?_ hzrem
    rw [World.score_zadd, if_neg fun h => hq h.1]
    rfl

/-- An end that cannot be stored, of a job that is not running in the queue. -/
theorem Tracked.moved (hw : Tracked n w) (hruns : ¬ Runs q.name n w) (k : RegistryKind)
    (ttl : Int) : Tracked n (j.moved ttl q.activeJobRegistry ⟨q.name, k⟩ w) := by
  have hfind : (j.moved ttl q.activeJobRegistry ⟨q.name, k⟩ w).jobs.find? n = w.jobs.find? n := by
    rw [JobModel.moved_jobs]
  intro hs
  rw [status_congr hfind] at hs
  obtain ⟨q', hq', hin⟩ := hw hs
  have hne : q' ≠ q.name := by
    rintro rfl
    exact hruns ⟨hs, hq'⟩
  refine ⟨q', (field_congr hfind _).trans hq', ?_⟩
  obtain ⟨s, hscore⟩ := (SortedSet.mem_iff_exists _ _).1 hin
  exact (SortedSet.mem_iff_exists _ _).2 ⟨s, (score_moved_of_ne hne k ttl).trans hscore⟩

/-- What the end of an execution has to find: the object can be stored as something else than STARTED,
or nothing of the job is in the queue. -/
def Endable (q : QueueName) (status : JobStatus) (j : JobModel) (w : World) : Prop :=
  if j.serializable = true then status ≠ .started else ¬ Runs q j.name w

theorem Tracked.success (hU : UserCode env (SparesStep n)) (hw : Tracked n w)
    (h : j.name = n → Endable q.name .finished j w) (v : PyValue) (ttl resultTtl : Int) :
    Tracked n ((q.jobHandleSuccess j v ttl resultTtl).exec w) := by
  by_cases hn : j.name = n
  · subst hn
    cases hser : j.serializable with
    | true => exact (idle_success hser v ttl resultTtl (Or.inl rfl)).tracked
    | false =>
        have hend := h rfl
        rw [Endable, if_neg (by simp [hser])] at hend
        rw [Prog.exec_eq_of_run (Queue.run_jobHandleSuccess_error q hser v ttl resultTtl w)]
        exact hw.moved hend .finished ttl
  · have hsteps : (q.jobHandleSuccess j v ttl resultTtl).Steps
        (ExecOr q.name j.name (SparesStep n)) (Named j.name) :=
      jobHandleSuccess_steps rfl v ttl resultTtl
    exact tracked_of_steps ((others hU).of_exec hsteps hn) hw

theorem Tracked.failure (hU : UserCode env (SparesStep n)) (hw : Tracked n w)
    {status : JobStatus} (h : j.name = n → Endable q.name status j w) (exc : String) :
    Tracked n ((q.jobHandleFailure env status j exc).exec w) := by
  by_cases hn : j.name = n
  · subst hn
    have hend := h rfl
    cases hser : j.serializable with
    | true =>
        rw [Endable, if_pos hser] at hend
        exact (idle_failure hend hser exc (Or.inl rfl)).tracked
    | false =>
        rw [Endable, if_neg (by simp [hser])] at hend
        rw [Prog.exec_eq_of_run (Queue.run_jobHandleFailure_error env q status hser exc w)]
        exact hw.moved hend .failed _
  · have hsteps : (q.jobHandleFailure env status j exc).Steps
        (ExecOr q.name j.name (SparesStep n)) (Named j.name) := jobHandleFailure_steps rfl status exc
    exact tracked_of_steps ((others hU).of_exec hsteps hn) hw

/-- The end of a successful execution by a worker; an object that cannot be encoded changes
nothing. -/
theorem Tracked.finish (hU : UserCode env (SparesStep n)) (hw : Tracked n w) (v : PyValue) :
    Tracked n ((Op.finishJob q j v).exec w) := by
  by_cases hn : j.name = n
  · rw [Op.exec_finishJob]
    split
    · exact hw
    · rename_i hser
      have hser' : j.saved.serializable = true := by
        rw [JobModel.saved_serializable]
        exact Bool.eq_true_of_not_eq_false hser
      have hidle : Idle n ((q.jobHandleSuccess j.saved v j.jobInfoTtl j.successTtl).exec
          (w.saveJob j true)) := idle_success hser' v _ _ (Or.inl hn)
      split
      · exact (hidle.expired j.successTtl).tracked
      · exact hidle.tracked
  · exact tracked_of_steps ((others hU).finishJob_steps hn v) hw

end Ends

/-! ## The start of an execution -/

section Start

variable {env : Env} {n : JobName} {w : World} {q : Queue} {j : JobModel}

/-- After a save of the object the record of the job names the queue. -/
def Names (q : QueueName) (j : JobModel) (w : World) : Prop :=
  if j.written false .queueName = true then j.queueName = q
  else w.storedField j.name .queueName = some q

theorem names_saveJob {j' : JobModel} (h : Names q.name j w) (hname : j'.name = j.name)
    (hqueue : j'.queueName = j.queueName)
    (hwritten : j'.written false .queueName = j.written false .queueName) :
    (w.saveJob j' false).storedField j.name .queueName = some q.name := by
  unfold Names at h
  rw [World.storedField_saveJob, hname, hwritten]
  split at h
  · rename_i hw
    rw [if_pos ⟨rfl, hw⟩]
    exact congrArg some (hqueue.trans h)
  · rename_i hw
    rw [if_neg fun h' => hw h'.2]
    exact h

theorem written_queueName_prepared (worker : WorkerName) (now : Int) :
    (j.prepared worker now).written false .queueName = j.written false .queueName := by
  simp [JobModel.written, JobModel.prepared, JobModel.setStatus, JobModel.setStartedAt,
    JobModel.setLastHeartbeat, JobModel.setWorkerName]

/-- `prepare_for_execution`. -/
theorem inRun_prepare (h : Names q.name j w) (hser : j.serializable = true) (worker : WorkerName) :
    InRun q.name j.name ((j.prepareForExecution worker q.activeJobRegistry).exec w) := by
  rw [JobModel.exec_prepareForExecution, JobModel.exec_save, JobModel.prepared_serializable,
    if_pos hser]
  refine ⟨?_, (World.inRegistry_zadd ..).2 (Or.inl ⟨rfl, rfl, rfl⟩)⟩
  exact names_saveJob (w := j.registered q.activeJobRegistry w) h rfl rfl
    (written_queueName_prepared worker w.now)

/-- What cannot be encoded is registered, but its record stays as it is. -/
theorem Tracked.prepare (hw : Tracked n w) (worker : WorkerName)
    (h : j.name = n → j.serializable = true → Names q.name j w) :
    Tracked n ((j.prepareForExecution worker q.activeJobRegistry).exec w) := by
  by_cases hn : j.name = n
  · subst hn
    cases hser : j.serializable with
    | true => exact (inRun_prepare (h rfl hser) hser worker).tracked
    | false =>
        rw [JobModel.exec_prepareForExecution, JobModel.exec_save, if_neg (by simp [hser])]
        intro hs
        obtain ⟨q', hq', hin⟩ := hw hs
        exact ⟨q', hq', (World.inRegistry_zadd ..).2 (Or.inr hin)⟩
  · rw [JobModel.exec_prepareForExecution, JobModel.exec_save]
    have hadd : Spares n w (j.registered q.activeJobRegistry w) := .zadd _ _ _ hn
    have hsave : Spares n (j.registered q.activeJobRegistry w)
        ((j.registered q.activeJobRegistry w).saveJob (j.prepared worker w.now) false) :=
      .of_registry (World.find?_saveJob_of_ne _ _ _ fun h => hn h.symm) rfl rfl
    split
    · exact (hadd.trans hsave).tracked hw
    · exact hadd.tracked hw

/-- A worker takes the job from the queue that the job names. -/
theorem Tracked.start {queues : List Queue} {timeout : Option Int} {worker : WorkerName}
    {fuel : Nat} (hw : Tracked n w)
    (h : ∀ j q, ((Queue.dequeueAny env queues timeout fuel).run w).val = .ok (some (j, q)) →
      j.name = n → j.queueName = q.name) :
    Tracked n ((Op.startNext env queues timeout worker fuel).exec w) := by
  obtain ⟨hdrawn, hjob⟩ := dequeueAny_drawn env queues timeout fuel w
  have hw' : Tracked n ((Queue.dequeueAny env queues timeout fuel).exec w) :=
    (Spares.of_drawn hdrawn).tracked hw
  refine Prog.exec_bind_keeps hw' fun r hr => ?_
  cases r with
  | none => exact hw'
  | some p =>
      obtain ⟨j, q⟩ := p
      obtain ⟨-, -, hfetch⟩ := hjob j q hr
      show Tracked n ((After.get _ >>= fun _ => pure ()).exec _)
      rw [exec_ignore, After.exec_get]
      refine hw'.prepare worker fun hn _ => ?_
      have hqueue := h j q hr hn
      obtain ⟨v, hv, hloaded⟩ := JobModel.loadedFrom_of_fetch hfetch
      unfold Names
      split
      · exact hqueue
      · unfold World.storedField
        rw [hdrawn.jobs, hv, Option.bind_some, hloaded.queueName, hqueue]

end Start

/-! ## Performing a job -/

section Perform

variable {env : Env} {n : JobName} {w : World} {q : Queue} {j : JobModel}

/-- An object of the queue is saved over a record of the queue. -/
theorem performs_inRun (hU : UserCode env (SparesStep n)) (q : QueueName) :
    Performs env (fun j => j.name = n ∧ j.queueName = q)
      (fun w w' _ => InRun q n w → InRun q n w') where
  saved := fun _ h => h
  metadata := fun _ _ h => h
  same := fun _ => id
  save := fun w j sa h hw => by
    refine ⟨?_, hw.2⟩
    rw [World.storedField_saveJob]
    split
    · exact congrArg some h.2
    · exact hw.1
  persist := fun w j _ hw => by
    refine ⟨?_, hw.2⟩
    exact (field_congr (TtlMap.find?_persist _ _ _) _).trans hw.1
  called := fun _ _ _ => id
  success := fun _ _ _ => id
  failure := fun _ _ _ => id
  user := hU.mono fun _ _ _ h => h.inRun

/-- An object that is not STARTED is saved over a record that is not. -/
theorem performs_idle (hU : UserCode env (SparesStep n)) :
    Performs env (fun j => j.name = n ∧ j.status ≠ .started)
      (fun w w' _ => Idle n w → Idle n w') where
  saved := fun _ h => h
  metadata := fun _ _ h => h
  same := fun _ => id
  save := fun _ _ _ h hw => idle_saveJob hw h.2
  persist := fun _ _ _ hw => idle_of_find? (TtlMap.find?_persist _ _ _) hw
  called := fun _ _ _ => id
  success := fun _ _ _ => id
  failure := fun _ _ _ => id
  user := hU.mono fun _ _ _ h => h.idle

/-- `queue_perform_job` of a job that is in the active registry, or not STARTED. -/
theorem Tracked.perform (hU : UserCode env (SparesStep n)) (hw : Tracked n w)
    (h : j.name = n → InRun j.queueName n w ∨ j.status ≠ .started ∧ Idle n w) :
    Tracked n ((queuePerformJob env j).exec w) := by
  by_cases hn : j.name = n
  · rcases h hn with hin | ⟨hs, hidle⟩
    · have hsteps := (performs_inRun hU j.queueName).queuePerformJob_steps (j := j) ⟨hn, rfl⟩
      have hin' : InRun j.queueName n ((queuePerformJob env j).exec w) :=
        hsteps.exec (fun _ _ _ hs => hs) hin
      exact hin'.tracked
    · have hsteps := (performs_idle hU).queuePerformJob_steps (j := j) ⟨hn, hs⟩
      have hidle' : Idle n ((queuePerformJob env j).exec w) :=
        hsteps.exec (fun _ _ _ hs => hs) hidle
      exact hidle'.tracked
  · have hsteps : (queuePerformJob env j).Steps (ExecOr "" j.name (SparesStep n)) (Named j.name) :=
      queuePerformJob_steps hU Spares.refl rfl
    exact tracked_of_steps ((others hU).of_exec hsteps hn) hw

/-! ## Executions on a queue without workers -/

/-- How `run_sync` performs the job. -/
def performedSync (env : Env) (q : Queue) (j : JobModel) (w : World) :
    Except PyError (After PyValue) :=
  ((queuePerformJob env (j.prepared "sync" w.now).saved).run
    ((j.prepareForExecution "sync" q.activeJobRegistry).exec w)).val

/-- `run_sync` handles every `Exception`, but not a `BaseException`. -/
def Handled (r : Except PyError PyValue) : Prop := ∀ x, r = .error x → x.isException = true

/-- The object that performing the job leaves can be stored. -/
def Stores (env : Env) (q : Queue) (j : JobModel) (w : World) : Prop :=
  ∀ j' r, performedSync env q j w = .ok (j', r) → Handled r → j'.serializable = true

/-- Nothing ends `run_sync` before it has stored the end of the job. -/
def Handles (env : Env) (q : Queue) (j : JobModel) (w : World) : Prop :=
  ∃ j' r, performedSync env q j w = .ok (j', r) ∧ Handled r

/-- The end of the job that `run_sync` executes is stored. If it has none, the job is one of the
queue. -/
def SyncFits (env : Env) (q : Queue) (j : JobModel) (w : World) : Prop :=
  Stores env q j w ∧ (Handles env q j w ∨ j.queueName = q.name ∧ Names q.name j w)

/-- The part of `run_sync` after `prepare_for_execution`. -/
def syncRest (env : Env) (q : Queue) (job : JobModel) : Py (After Unit) := do
  let r ← After.next (queuePerformJob env job) fun job result =>
    q.jobHandleSuccess job result job.jobInfoTtl job.successTtl
  match r.2 with
  | .ok _ => pure r
  | .error x =>
      if x.isException then q.jobHandleFailure env .failed r.1 "traceback"
      else pure r

theorem name_performed {r : JobModel × Except PyError PyValue}
    (h : ((queuePerformJob env j).run w).val = .ok r) : r.1.name = j.name := by
  have hU : UserCode env fun _ _ _ => True := fun name f j hf =>
    (Prog.Steps.any _).mono (fun _ _ _ => id) fun o _ p _ => Prog.Steps.any p
  have hsteps : (queuePerformJob env j).Steps (ExecOr "" j.name fun _ _ _ => True)
      (Named j.name) := queuePerformJob_steps hU (fun _ => trivial) rfl
  exact hsteps.val w h

/-- `run_sync` ends with the job stored as finished or failed, or an exception that it does not
handle leaves it running. -/
theorem runSync_ends (hU : UserCode env (SparesStep n)) (hn : j.name = n)
    (hser : j.serializable = true) (h : SyncFits env q j w) :
    Tracked n ((q.runSync env j).exec w) ∧
      ∀ j', ((q.runSync env j).run w).val = .ok (j', .ok ()) →
        Idle n ((q.runSync env j).exec w) := by
  subst hn
  have hprepare : (j.prepareForExecution "sync" q.activeJobRegistry).run w
      = ⟨.ok ((j.prepared "sync" w.now).saved, .ok ()),
        (j.prepareForExecution "sync" q.activeJobRegistry).exec w, []⟩ := by
    have hser' : (j.prepared "sync" w.now).serializable = true := hser
    unfold Prog.exec
    rw [JobModel.run_prepareForExecution, JobModel.run_save hser']
  have hrest : (q.runSync env j).run w = (syncRest env q (j.prepared "sync" w.now).saved).run
      ((j.prepareForExecution "sync" q.activeJobRegistry).exec w) := by
    show (j.prepareForExecution "sync" q.activeJobRegistry >>= _).run w = _
    rw [Prog.run_bind, hprepare, Prog.Outcome.andThen_ok]
    rfl
  -- the job stays in the active registry while it is performed
  have hruns : j.queueName = q.name → Names q.name j w → InRun q.name j.name
      ((queuePerformJob env (j.prepared "sync" w.now).saved).exec
        ((j.prepareForExecution "sync" q.activeJobRegistry).exec w)) := by
    intro hqueue hnames
    have hsteps := (performs_inRun hU q.name).queuePerformJob_steps
      (j := (j.prepared "sync" w.now).saved) ⟨rfl, hqueue⟩
    exact hsteps.exec (fun _ _ _ hs => hs) (inRun_prepare hnames hser "sync")
  have hname : ∀ r, performedSync env q j w = .ok r → r.1.name = j.name := by
    intro r hr
    exact (name_performed hr).trans ((JobModel.saved_name _).trans (JobModel.prepared_name _ _ _))
  obtain ⟨hstores, hhandles⟩ := h
  unfold Stores at hstores
  unfold Handles at hhandles
  unfold performedSync at hstores hhandles hname
  unfold Prog.exec
  rw [hrest]
  generalize (j.prepareForExecution "sync" q.activeJobRegistry).exec w = w₁
    at hruns hstores hhandles hname ⊢
  unfold Prog.exec at hruns
  unfold syncRest After.next
  rw [Prog.run_bind, Prog.run_bind]
  rcases hp : (queuePerformJob env (j.prepared "sync" w.now).saved).run w₁
    with ⟨x | ⟨j₂, x | rv⟩, w₂, t⟩
  · rw [hp] at hruns hhandles
    have hleft := hhandles.resolve_left (by
      rintro ⟨_, _, h, -⟩
      cases h)
    exact ⟨(hruns hleft.1 hleft.2).tracked, fun j' h => by cases h⟩
  · rw [hp] at hruns hstores hhandles hname
    have hn₂ : j₂.name = j.name := hname _ rfl
    simp only [Prog.Outcome.andThen_ok, After.andThen, Prog.pure_eq, Prog.run_ret]
    by_cases hx : x.isException = true
    · rw [if_pos hx]
      have hser₂ : j₂.serializable = true := hstores j₂ _ rfl fun y hy => by
        cases hy
        exact hx
      have hidle : Idle j.name ((q.jobHandleFailure env .failed j₂ "traceback").exec w₂) :=
        idle_failure (by simp) hser₂ _ (Or.inl hn₂)
      exact ⟨hidle.tracked, fun _ _ => hidle⟩
    · rw [if_neg hx]
      have hleft := hhandles.resolve_left (by
        rintro ⟨_, _, h, hr⟩
        cases h
        exact hx (hr x rfl))
      exact ⟨(hruns hleft.1 hleft.2).tracked, fun j' h => by cases h⟩
  · rw [hp] at hstores hname
    have hn₂ : j₂.name = j.name := hname _ rfl
    have hser₂ : j₂.serializable = true := hstores j₂ _ rfl fun y hy => by cases hy
    have hidle : Idle j.name ((q.jobHandleSuccess j₂ rv j₂.jobInfoTtl j₂.successTtl).exec w₂) :=
      idle_success hser₂ rv _ _ (Or.inl hn₂)
    have hsuccess := Queue.run_jobHandleSuccess q hser₂ rv j₂.jobInfoTtl j₂.successTtl w₂
    rw [Prog.exec_eq_of_run hsuccess] at hidle
    simp only [Prog.Outcome.andThen_ok, After.andThen, hsuccess]
    by_cases hr : j₂.successTtl = 0 ∨ rv.encodes = true
    · rw [if_pos hr]
      exact ⟨hidle.tracked, fun _ _ => hidle⟩
    · -- the result cannot be encoded, so the job is failed after it was finished
      rw [if_neg hr]
      have hne : JobStatus.failed ≠ .started := by simp
      have hfail := @Idle.failure env j.name _ q (j₂.ended .finished w₂.now).saved .failed hne
        "traceback" hidle
      exact ⟨hfail.tracked, fun _ _ => hfail⟩

theorem val_get {α : Type} {p : Py (After α)} {r : JobModel × α}
    (h : ((After.get p).run w).val = .ok r) : (p.run w).val = .ok (r.1, .ok r.2) := by
  rcases hp : p.run w with ⟨_ | ⟨j, x | a⟩, w', t⟩
  · simp [After.get, Prog.run_bind, hp] at h
  · rw [After.run_get_error hp] at h
    cases h
  · rw [After.run_get_ok hp] at h
    cases h
    rfl

/-- What `enqueue_job` has to find for a job that it runs at once. -/
def EnqueueFits (env : Env) (q : Queue) (j : JobModel) (w : World) : Prop :=
  SyncFits env q (Queue.enqueuedModel j w.now).saved (w.saveJob (Queue.enqueuedModel j w.now) false)

/-- `enqueue_job`; on a queue without workers the job is run at once. -/
theorem Tracked.enqueue (hU : UserCode env (SparesStep n)) (hw : Tracked n w)
    (h : j.name = n → q.isAsync = false → EnqueueFits env q j w) (atFront : Bool) :
    Tracked n ((q.enqueueJob env j atFront).exec w) := by
  by_cases hn : j.name = n
  · subst hn
    cases hser : j.serializable with
    | false =>
        rw [Prog.exec_eq_of_run (Queue.run_enqueueJob_error env q hser atFront w)]
        exact hw
    | true =>
        cases hasync : q.isAsync with
        | true =>
            rw [Prog.exec_eq_of_run (Queue.run_enqueueJob env hasync hser atFront w)]
            have hidle : Idle j.name (w.saveJob (Queue.enqueuedModel j w.now) false) :=
              idle_of_saveJob rfl (by simp [JobModel.written, Queue.enqueuedModel,
                JobModel.setStatus, JobModel.setEnqueuedAt]) (by simp [Queue.enqueuedModel,
                JobModel.setStatus, JobModel.setEnqueuedAt])
            have hqueued : Idle j.name (q.enqueuedWorld j atFront w) :=
              idle_of_find? (w := w.saveJob (Queue.enqueuedModel j w.now) false) rfl hidle
            exact hqueued.tracked
        | false =>
            have hfits := h rfl hasync
            have hstep : (q.enqueueJob env j atFront).exec w
                = (After.get (q.runSync env (Queue.enqueuedModel j w.now).saved) >>= fun r =>
                    r.1.expire r.1.jobInfoTtl).exec
                  (w.saveJob (Queue.enqueuedModel j w.now) false) := by
              simp [Queue.enqueueJob, Prog.exec, Prog.run_bind, JobModel.run_get_save, hser, hasync]
            have hname : (Queue.enqueuedModel j w.now).saved.name = j.name := rfl
            have hser' : (Queue.enqueuedModel j w.now).saved.serializable = true := by
              rw [JobModel.saved_serializable, Queue.enqueuedModel_serializable, hser]
            unfold EnqueueFits at hfits
            rw [hstep]
            generalize (Queue.enqueuedModel j w.now).saved = j₁ at hfits hname hser' ⊢
            obtain ⟨htracked, hended⟩ := runSync_ends hU hname hser' hfits
            refine Prog.exec_bind_keeps ?_ fun r hr => ?_
            · rw [After.exec_get]
              exact htracked
            · rw [After.exec_get, Prog.exec_eq_of_run (JobModel.run_expire _ _ _)]
              exact ((hended r.1 (val_get hr)).expired _).tracked
  · exact tracked_of_steps ((others hU).enqueueJob_steps hn atFront) hw

/-- `create_and_enqueue_job`. -/
theorem Tracked.create (hU : UserCode env (SparesStep n)) (hw : Tracked n w) {a : JobArgs}
    {when' : Queue.When} (h : JobModel.nameFor a q.name w.now = n → q.isAsync = false →
      when' = .none → EnqueueFits env q (JobModel.fresh env a q.name (Queue.statusFor when') w.now).saved
        (w.saveJob (JobModel.fresh env a q.name (Queue.statusFor when') w.now) false))
    (atFront : Bool) : Tracked n ((q.createAndEnqueueJob env a when' atFront).exec w) := by
  rw [Queue.exec_createAndEnqueueJob]
  cases hc : JobModel.createError env a w with
  | some x => exact hw
  | none =>
      have hser := JobModel.serializable_of_createError hc q.name (Queue.statusFor when') w.now
      by_cases hn : JobModel.nameFor a q.name w.now = n
      · have hidle : Idle n (w.saveJob (JobModel.fresh env a q.name (Queue.statusFor when') w.now)
            false) := by
          refine idle_of_saveJob hn (by simp [JobModel.written]) ?_
          cases when' <;> simp [JobModel.fresh, JobModel.new, Queue.statusFor]
        cases when' with
        | none => exact hidle.tracked.enqueue hU (fun _ hasync => h hn hasync rfl) atFront
        | datetime t =>
            have hser' : (JobModel.fresh env a q.name (Queue.statusFor (.datetime t))
                w.now).saved.serializable = true := hser
            show Tracked n ((q.placeJob env _ (.datetime t) atFront).exec _)
            rw [Prog.exec_eq_of_run (Queue.run_placeJob_datetime env q hser' t atFront _)]
            have hsaved : Idle n ((w.saveJob (JobModel.fresh env a q.name
                (Queue.statusFor (.datetime t)) w.now) false).saveJob (JobModel.fresh env a q.name
                (Queue.statusFor (.datetime t)) w.now).saved false) :=
              idle_saveJob hidle (by simp [JobModel.fresh, JobModel.new, Queue.statusFor])
            refine Idle.tracked (idle_of_find? ?_ hsaved)
            rfl
        | other => exact hidle.tracked
      · have hsave : Spares n w (w.saveJob
            (JobModel.fresh env a q.name (Queue.statusFor when') w.now) false) :=
          .of_registry (World.find?_saveJob_of_ne _ _ _ fun h => hn h.symm) rfl rfl
        exact tracked_of_steps ((others hU).placeJob_steps hn when' atFront) (hsave.tracked hw)

end Perform

end DailyScheduler.Started
