import DailyScheduler.Scheduling.Handover

set_option autoImplicit false

/-! # The options of a task's job

The job of a task waits in the scheduled registry until a pass finds that it is due. Its record is
written when the job is made and nothing changes it before the pass loads it; what the pass
enqueues the job with is what was written. `create` is not told `at_front`, so the record never says
that the job goes to the front.
-/

namespace DailyScheduler.Options

open AtomicProg Handover

/-- The job has the options of the task, or the defaults where the task has none. -/
structure Carries (cfg : SchedulerConfiguration) (t : Task) (job : JobModel) : Prop where
  atFront : job.atFront.getD false = t.atFront
  timeout : job.timeout = t.timeout.getD cfg.DEFAULT_JOB_TIMEOUT
  successTtl : job.successTtl = t.resultTtl.getD cfg.DEFAULT_SUCCESS_TTL

/-! ## Passes -/

/-- A pass up to the queue that comes after the queues `l`. -/
def upTo (env : Env) (l : List QueueName) : Py Unit := do
  rescheduleTasks env
  Prog.forEach l fun q => WorkerScheduler.enqueueFrom env q

/-- The jobs that a round hands over. -/
def loaded (env : Env) (q : Queue) (w : World) : List (Option JobModel) :=
  match JobModel.deserializeAll env
      ((takenNames q (currentTimestamp w.now) w).map fun n => (n, w.jobs.find? n)) with
  | .ok js => js
  | .error _ => []

/-- The job can be loaded with the options of the task, and with them any pass hands it over that
takes it when it first comes to the queue. -/
structure Keeps (env : Env) (t : Task) (q : Queue) (n : JobName) (c : Config World Event) : Prop where
  stored : ∃ job, JobModel.fetch env c.1 n = some job ∧ Carries env.config t job
  handed : ∀ (s : WorkerScheduler) a b, s.registries = a ++ q.name :: b → q.name ∉ a →
    ∀ job, some job ∈ loaded env q ((upTo env a).exec c.1) → job.name = n →
      Carries env.config t job

/-- The operation does not find the job due: no round of the queue takes it. -/
def Waits (env : Env) (q : Queue) (n : JobName) (c : Config World Event) : PassOp → Prop
  | .tick _ => True
  | .pass s => ∀ a b, s.registries = a ++ q.name :: b →
      n ∉ takenNames q (currentTimestamp ((upTo env a).exec c.1).now) ((upTo env a).exec c.1)

/-- The record of the job is `v` and does not expire, and no other queue has the job scheduled. -/
structure Stored (q : Queue) (n : JobName) (v : JobHash) (c : Config World Event) : Prop where
  record : c.1.jobs.find? n = some v
  deadline : c.1.jobs.deadline n = none
  own : ∀ q', q' ≠ q.name → ¬ c.1.inRegistry q' .scheduled n

section Stored

variable {env : Env} {q : Queue} {n : JobName} {v : JobHash}

theorem Stored.of_frame {w w' : World} {t t' : List Event} (h : Stored q n v (w, t))
    (hjobs : w'.jobs.entry n = w.jobs.entry n)
    (hreg : ∀ q', w'.inRegistry q' .scheduled n → w.inRegistry q' .scheduled n) :
    Stored q n v (w', t') where
  record := by
    have hfind : w'.jobs.find? n = w.jobs.find? n := by
      unfold TtlMap.find?
      rw [hjobs]
    exact hfind.trans h.record
  deadline := by
    have hdeadline : w'.jobs.deadline n = w.jobs.deadline n := by
      unfold TtlMap.deadline
      rw [hjobs]
    exact hdeadline.trans h.deadline
  own := fun q' hne hin => h.own q' hne (hreg q' hin)

theorem entry_saveJob {w : World} {j : JobModel} (h : j.name ≠ n) (sa : Bool) :
    (w.saveJob j sa).jobs.entry n = w.jobs.entry n := by
  have hne : n ≠ j.name := fun heq => h heq.symm
  unfold World.saveJob
  dsimp only
  split
  · exact TtlMap.entry_put_of_ne _ _ hne
  · exact TtlMap.entry_erase_of_ne _ hne

theorem inRegistry_of_zadd {w : World} {q' q'' : QueueName} {m : JobName} {k : RegistryKind} {s : Int}
    (hm : m ≠ n) (h : (w.zadd q' k m s).inRegistry q'' .scheduled n) :
    w.inRegistry q'' .scheduled n := by
  rcases (World.inRegistry_zadd ..).1 h with ⟨-, -, hnm⟩ | hin
  · exact absurd hnm.symm hm
  · exact hin

/-- The commands of an execution of another job. -/
theorem Stored.execStep {q' : QueueName} {m : JobName} (hm : m ≠ n) {w w' : World}
    {t es : List Event} (hs : ExecStep q' m w w' es) (h : Stored q n v (w, t)) :
    Stored q n v (w', t ++ es) := by
  have hne : n ≠ m := fun heq => hm heq.symm
  cases hs with
  | same => exact h.of_frame rfl fun _ hin => hin
  | add k s => exact h.of_frame rfl fun _ hin => inRegistry_of_zadd hm hin
  | remove => exact h.of_frame rfl fun _ hin => ((World.inRegistry_zrem ..).1 hin).2
  | save j sa hj => exact h.of_frame (entry_saveJob (by rwa [hj]) sa) fun _ hin => hin
  | persist => exact h.of_frame (TtlMap.entry_setDeadline_of_ne _ _ hne) fun _ hin => hin
  | result r => exact h.of_frame rfl fun _ hin => hin
  | deleteResults => exact h.of_frame rfl fun _ hin => hin
  | saveWorker cfg model sa => exact h.of_frame rfl fun _ hin => hin
  | expireWorker name d => exact h.of_frame rfl fun _ hin => hin
  | success => exact h.of_frame rfl fun _ hin => hin
  | failure => exact h.of_frame rfl fun _ hin => hin

theorem Stored.expireStep {m : JobName} (hm : m ≠ n) {w w' : World} {t es : List Event}
    (hs : ExpireStep m w w' es) (h : Stored q n v (w, t)) : Stored q n v (w', t ++ es) := by
  have hne : n ≠ m := fun heq => hm heq.symm
  cases hs with
  | expire d => exact h.of_frame (TtlMap.entry_setDeadline_of_ne _ _ hne) fun _ hin => hin
  | delete => exact h.of_frame (TtlMap.entry_erase_of_ne _ hne) fun _ hin => hin

/-- The record is spared by everything a pass does to other jobs. -/
theorem spared_stored (hU : UserKeeps env (Stored q n v)) :
    Spared env (fun _ m => m ≠ n) (Stored q n v) where
  save := fun w t _ j sa hm h => h.of_frame (entry_saveJob hm sa) fun _ hin => hin
  store := fun w t x h => h.of_frame rfl fun _ hin => hin
  created := fun w t m h => h.of_frame rfl fun _ hin => hin
  taskScheduled := fun w t id m h => h.of_frame rfl fun _ hin => hin
  schedule := fun w t q' m s hm h => h.of_frame rfl fun _ hin => inRegistry_of_zadd hm hin
  push := fun w t q' m s _ hm h => h.of_frame rfl fun _ hin =>
    ((World.inRegistry_zrem ..).1 (inRegistry_of_zadd hm hin)).2
  exec := fun q' m _ hm =>
    ⟨fun w t w' es hs h => h.execStep hm hs, fun w t h => h.of_frame rfl fun _ hin => hin⟩
  expire := fun w t w' es q' m _ hm hs h => h.expireStep hm hs
  fresh := fun w t q' m h hfree heq => by
    subst heq
    have hfind := (TtlMap.contains_eq_false_iff _ _).1 hfree
    have hrecord := h.record
    rw [hfind] at hrecord
    cases hrecord
  user := hU

/-! ## Until the job is due -/

theorem upTo_concat (env : Env) (l : List QueueName) (q : QueueName) :
    upTo env (l ++ [q]) = upTo env l >>= fun _ => WorkerScheduler.enqueueFrom env q := by
  unfold upTo
  rw [Prog.forEach_append, Prog.bind_assoc]
  congr 1
  funext _
  congr 1
  funext _
  show (WorkerScheduler.enqueueFrom env q >>= fun _ => Prog.ret ()) = _
  exact Prog.bind_ret _

/-- Up to any queue the record is as it was, if no round of the job's queue takes the job. -/
theorem Stored.upTo (hU : UserKeeps env (Stored q n v)) (hq : env.queues q.name = some q.isAsync)
    {c : Config World Event} (h : Stored q n v c) (l : List QueueName)
    (hl : ∀ a b, l = a ++ q.name :: b →
      n ∉ takenNames q (currentTimestamp ((upTo env a).exec c.1).now) ((upTo env a).exec c.1)) :
    Stored q n v ((Options.upTo env l).after c) := by
  have hs := spared_stored hU
  induction l using List.reverseRecOn with
  | nil =>
      have hinv : (Options.upTo env []).Inv (Stored q n v) fun _ => True :=
        hs.rescheduleTasks_inv.bind fun _ _ => Prog.Inv.ret trivial
      exact (hinv.ends h).1
  | append_singleton l q' ih =>
      have hbefore := ih fun a b hab => hl a (b ++ [q']) (by rw [hab]; simp)
      rw [upTo_concat]
      cases hv : ((Options.upTo env l).run c.1).val with
      | error x =>
          rw [Prog.after_bind_error hv]
          exact hbefore
      | ok u =>
          rw [Prog.after_bind hv]
          by_cases hq' : q' = q.name
          · subst hq'
            refine round_after hs.jobs hq hbefore fun m hm heq => ?_
            subst heq
            exact hl l [] rfl hm
          · have hround := hs.jobs.enqueueFrom_inv (q := q') fun w t m _ _ hw hin heq => by
              subst heq
              exact hw.own q' hq' hin
            exact (hround.ends hbefore).1

theorem Stored.step (hU : UserKeeps env (Stored q n v)) (hq : env.queues q.name = some q.isAsync)
    {c : Config World Event} {op : PassOp} (h : Stored q n v c) (hop : Waits env q n c op) :
    Stored q n v (PassOp.step env c op) := by
  cases op with
  | tick d =>
      have hentry : (c.1.advance d).jobs.find? n = c.1.jobs.find? n :=
        TtlMap.find?_purge_of_deadline_none _ _ h.deadline
      refine ⟨hentry.trans h.record, ?_, h.own⟩
      show (c.1.jobs.purge _).deadline n = none
      rw [TtlMap.deadline_purge, h.deadline]
      rfl
  | pass s =>
      have hpass : (s.enqueueScheduledJobs env).after c = (Options.upTo env s.registries).after c := by
        have heq : s.enqueueScheduledJobs env = Options.upTo env s.registries >>= fun _ =>
            pure { s with status := .started } := by
          unfold WorkerScheduler.enqueueScheduledJobs Options.upTo
          rw [Prog.bind_assoc]
        rw [heq]
        cases hv : ((Options.upTo env s.registries).run c.1).val with
        | error x => rw [Prog.after_bind_error hv]
        | ok u =>
            rw [Prog.after_bind hv]
            have hret : ((pure { s with status := .started } : Py WorkerScheduler).after
                ((Options.upTo env s.registries).after c))
                = (((Options.upTo env s.registries).after c).1,
                  ((Options.upTo env s.registries).after c).2 ++ []) := Prog.after_of_run rfl
            rw [hret, List.append_nil]
      show Stored q n v ((s.enqueueScheduledJobs env).after c)
      rw [hpass]
      exact h.upTo hU hq s.registries hop

end Stored

/-! ## The record of a new job -/

section Created

variable {env : Env} {t : Task} {isAsync : Bool} {w : World}

/-- The record of a job that was saved once. -/
def written (job : JobModel) : JobHash := job.storedOver false fun _ => none

/-- `create` leaves the options of the task in the job, `at_front` apart. -/
structure MadeFrom (cfg : SchedulerConfiguration) (t : Task) (n : JobName) (job : JobModel) : Prop where
  name : job.name = n
  saveAll : job.saveAll = true
  atFront : job.atFront = none
  timeout : job.timeout = JobModel.timeoutOrDefault cfg t.timeout
  positive : JobModel.timeoutOrDefault cfg t.timeout ≠ 0
  successTtl : job.successTtl = t.resultTtl.getD cfg.DEFAULT_SUCCESS_TTL

/-- The end of `_schedule`, when it returned a task with a job to be run at the time `s`. -/
theorem made_of_createJob (hq : env.queues t.queue = some isAsync) {t' : Task} {w₁ : World}
    {es : List Event} {n : JobName} {s : Int} (hrun : (t.createJob env).run w = ⟨.ok t', w₁, es⟩)
    (hn : Event.taskScheduled t.id n ∈ es) (hs : t'.scheduledTime = some s) :
    ∃ job, MadeFrom env.config t n job ∧ w.jobExists n = false ∧
      w₁ = (Queue.mk t.queue isAsync).scheduledWorld job.saved (Task.scoreOf env s)
        (w.saveJob job false) := by
  cases hm : t.jobMeta with
  | error x =>
      have hargs : (t.readEnqueueArgs env).run w = ⟨.error x, w, []⟩ := by
        unfold Task.readEnqueueArgs
        rw [Prog.run_bind, run_utcnow, Prog.Outcome.andThen_ok, hm]
        rfl
      unfold Task.createJob at hrun
      rw [Prog.run_bind, hargs, Prog.Outcome.andThen_error] at hrun
      cases hrun
  | ok m =>
      rw [Task.run_createJob_when hq hm, Queue.run_createAndEnqueueJob] at hrun
      cases hc : JobModel.createError env (t.enqueueArgs env (t.nextName w) m) w with
      | some x =>
          rw [hc] at hrun
          cases hrun
      | none =>
          rw [hc] at hrun
          have hser := JobModel.serializable_of_createError hc t.queue .scheduled w.now
          obtain ⟨hpos, hfree⟩ := (Task.createError_enqueueArgs hm w).1 hc
          -- the task that comes back has the time of the one the job was made for
          have hwhen : t.scheduledTime = some s := by
            generalize ((Queue.mk t.queue isAsync).placeJob env _ _ _).run _ = r at hrun
            obtain ⟨_ | job, w₂, es₂⟩ := r
            · cases hrun
            · cases hrun
              exact hs
          have hdatetime : Task.whenOf env t.scheduledTime
              = Queue.When.datetime (Task.momentOf env s) := by
            rw [hwhen]
            rfl
          rw [hdatetime] at hrun
          dsimp only [Queue.statusFor] at hrun
          rw [Queue.run_placeJob_datetime env _ (by exact hser)] at hrun
          cases hrun
          have hname : n = t.nextName w := by
            rcases List.mem_append.1 hn with hmem | hmem
            · simp at hmem
            · have hevent : Event.taskScheduled t.id n = .taskScheduled t.id (t.nextName w) :=
                List.mem_singleton.1 hmem
              exact (Event.taskScheduled.inj hevent).2
          refine ⟨JobModel.fresh env (t.enqueueArgs env (t.nextName w) m) t.queue .scheduled w.now,
            ⟨hname.symm, rfl, rfl, rfl, hpos, rfl⟩, ?_, rfl⟩
          rw [hname]
          exact hfree

theorem MadeFrom.congr {cfg : SchedulerConfiguration} {t₀ : Task} {n : JobName} {job : JobModel}
    (h : MadeFrom cfg t₀ n job) (htimeout : t₀.timeout = t.timeout)
    (hresultTtl : t₀.resultTtl = t.resultTtl) : MadeFrom cfg t n job := by
  constructor
  · exact h.name
  · exact h.saveAll
  · exact h.atFront
  · rw [← htimeout]
    exact h.timeout
  · rw [← htimeout]
    exact h.positive
  · rw [← hresultTtl]
    exact h.successTtl

theorem made_of_scheduleNext (hq : env.queues t.queue = some isAsync) {t' : Task} {w₁ : World}
    {es : List Event} {n : JobName} {s : Int}
    (hrun : (t.scheduleNext env).run w = ⟨.ok t', w₁, es⟩) (hn : Event.taskScheduled t.id n ∈ es)
    (hs : t'.scheduledTime = some s) :
    ∃ job, MadeFrom env.config t n job ∧ w.jobExists n = false ∧
      w₁ = (Queue.mk t.queue isAsync).scheduledWorld job.saved (Task.scoreOf env s)
        (w.saveJob job false) := by
  cases he : t.enabled with
  | false =>
      rw [Task.run_scheduleNext_disabled he] at hrun
      split at hrun
      · cases hrun
      · cases hrun
        cases hn
  | true =>
      cases ht : t.scheduleTime env w.now with
      | error x =>
          rw [Task.run_scheduleNext_error he ht] at hrun
          cases hrun
      | ok t₁ =>
          have hframe := Task.scheduleTime_frame ht
          rw [Task.run_scheduleNext he ht] at hrun
          cases hpast : t₁.inThePast w.now with
          | error x =>
              rw [hpast] at hrun
              cases hrun
          | ok late =>
              rw [hpast] at hrun
              cases late with
              | true =>
                  dsimp only at hrun
                  split at hrun
                  · cases hrun
                  · cases hrun
                    cases hn
              | false =>
                  have hqueue : t₁.queue = t.queue := by rw [hframe]
                  have hid : t₁.id = t.id := Task.id_of_scheduleTime ht
                  rw [← hqueue] at hq
                  rw [← hid] at hn
                  obtain ⟨job, hmade, hfree, hw₁⟩ := made_of_createJob hq hrun hn hs
                  rw [hqueue] at hw₁
                  refine ⟨job, hmade.congr ?_ ?_, hfree, hw₁⟩
                  · rw [hframe]
                  · rw [hframe]

/-- The world `_schedule` makes the job in: the row may have been saved before. -/
theorem made_of_schedule (hq : env.queues t.queue = some isAsync) {t' : Task} {w₁ : World}
    {es : List Event} {n : JobName} {s : Int} (hrun : (t.schedule env).run w = ⟨.ok t', w₁, es⟩)
    (hn : Event.taskScheduled t.id n ∈ es) (hs : t'.scheduledTime = some s) :
    ∃ (job : JobModel) (w₀ : World), MadeFrom env.config t n job ∧ w₀.jobs = w.jobs ∧ w₀.registry = w.registry ∧
      w.jobExists n = false ∧
      w₁ = (Queue.mk t.queue isAsync).scheduledWorld job.saved (Task.scoreOf env s)
        (w₀.saveJob job false) := by
  cases hjob : t.jobName with
  | none =>
      rw [Task.run_schedule_of_none hjob] at hrun
      obtain ⟨job, hmade, hfree, hw₁⟩ := made_of_scheduleNext hq hrun hn hs
      exact ⟨job, w, hmade, rfl, rfl, hfree, hw₁⟩
  | some m =>
      by_cases hp : t.Pending w
      · rw [Task.run_schedule_of_pending hp hq] at hrun
        cases hrun
        cases hn
      · rw [Task.run_schedule_of_lost hjob hp hq] at hrun
        have hforgotten : env.queues t.forgotten.queue = some isAsync := hq
        obtain ⟨job, hmade, hfree, hw₁⟩ := made_of_scheduleNext hforgotten hrun hn hs
        exact ⟨job, w.putTask t.forgotten, hmade.congr rfl rfl, rfl, rfl, hfree, hw₁⟩

/-- The second save, by `create_and_enqueue_job`, writes nothing new. -/
theorem storedOver_saved (job : JobModel) (v : JobHash) : job.saved.storedOver false v = v := by
  funext f
  have hnot : job.saved.written false f = false := by
    unfold JobModel.written JobModel.saved
    simp
  unfold JobModel.storedOver Hash.merge
  rw [hnot]
  rfl

/-- The record after `_schedule`. -/
theorem stored_of_made {q : Queue} {job : JobModel} {n : JobName} {s : Int} (es : List Event)
    (hmade : MadeFrom env.config t n job) (hfree : w.jobExists n = false)
    (hown : ∀ q', q' ≠ q.name → ¬ w.inRegistry q' .scheduled n) :
    Stored q n (written job) (q.scheduledWorld job.saved s (w.saveJob job false), es) := by
  have hname : job.name = n := hmade.name
  subst hname
  have hnone : w.jobs.find? job.name = none := (TtlMap.contains_eq_false_iff _ _).1 hfree
  have hfirst := @World.find?_saveJob_self w job false (.inr (.inr hmade.saveAll))
  rw [hnone, Option.getD_none] at hfirst
  have hload : (w.saveJob job false).loadable job.saved.name := ⟨_, hfirst⟩
  have hsecond := @World.find?_saveJob_self _ job.saved false (.inl hload)
  constructor
  · show ((w.saveJob job false).saveJob job.saved false).jobs.find? job.saved.name = _
    have hold : (w.saveJob job false).jobs.find? job.saved.name = some (written job) := hfirst.1
    rw [hsecond.1, storedOver_saved, hold]
    rfl
  · show ((w.saveJob job false).saveJob job.saved false).jobs.deadline job.saved.name = none
    rw [deadline_saveJob hload]
    cases hd : (w.saveJob job false).jobs.deadline job.name with
    | none => exact hd
    | some d =>
        have hold := World.deadline_of_saveJob hd
        rw [TtlMap.deadline_eq_none_of_find? hnone] at hold
        cases hold
  · intro q' hne hin
    rcases (World.inRegistry_zadd ..).1 hin with ⟨hq', -, -⟩ | hin
    · exact hne hq'
    · exact hown q' hne hin

theorem options_of_deserialize {cfg : SchedulerConfiguration} {n : JobName} {v : JobHash}
    {j : JobModel} (hj : JobModel.deserialize cfg n v = some j) :
    j.atFront = some ((v .atFront).getD false) ∧
      j.timeout = (v .timeout).getD cfg.DEFAULT_JOB_TIMEOUT ∧
      j.successTtl = (v .successTtl).getD cfg.DEFAULT_SUCCESS_TTL := by
  simp only [JobModel.deserialize, Option.bind_eq_bind, Option.bind_eq_some_iff,
    Option.some.injEq] at hj
  obtain ⟨_, -, _, -, _, -, _, -, _, -, _, -, _, -, _, -, _, -, rfl⟩ := hj
  exact ⟨rfl, rfl, rfl⟩

/-- What the record says of the options. -/
theorem carries_iff {job : JobModel} {n : JobName} {cfg : SchedulerConfiguration} {j : JobModel}
    (hmade : MadeFrom cfg t n job) (hj : JobModel.deserialize cfg n (written job) = some j) :
    Carries cfg t j ↔ t.atFront = false ∧ t.timeout ≠ some 0 := by
  have hfield : ∀ f, written job f = job.serialize f := by
    intro f
    have hall : job.written false f = true := by
      unfold JobModel.written
      rw [hmade.saveAll]
      simp
    unfold written JobModel.storedOver Hash.merge
    rw [hall]
    rfl
  obtain ⟨hfront, htimeout, hresultTtl⟩ := options_of_deserialize hj
  have hfront' : j.atFront = some false := by
    have hnone : job.serialize .atFront = none := hmade.atFront
    rw [hfront, hfield, hnone]
    rfl
  have htimeout' : j.timeout = JobModel.timeoutOrDefault cfg t.timeout := by
    have hsome : job.serialize .timeout = some job.timeout := rfl
    rw [htimeout, hfield, hsome, Option.getD_some]
    exact hmade.timeout
  have hresultTtl' : j.successTtl = t.resultTtl.getD cfg.DEFAULT_SUCCESS_TTL := by
    have hsome : job.serialize .successTtl = some job.successTtl := rfl
    rw [hresultTtl, hfield, hsome, Option.getD_some]
    exact hmade.successTtl
  have hpositive := hmade.positive
  constructor
  · rintro ⟨hf, ht, -⟩
    constructor
    · rw [← hf, hfront']
      rfl
    · intro hzero
      rw [htimeout', hzero] at ht
      rw [hzero] at hpositive
      exact hpositive ht
  · rintro ⟨hf, ht⟩
    constructor
    · rw [hf, hfront']
      rfl
    · rw [htimeout']
      unfold JobModel.timeoutOrDefault
      cases h : t.timeout with
      | none => rfl
      | some i =>
          have hne : i ≠ 0 := fun hi => ht (by rw [h, hi])
          dsimp only
          rw [if_neg hne]
          rfl
    · exact hresultTtl'

theorem name_of_loaded {q : Queue} {j : JobModel} (h : some j ∈ loaded env q w) :
    JobModel.fetch env w j.name = some j := by
  unfold loaded at h
  split at h
  · rename_i js hjs
    have hget : ((JobModel.getMany env (takenNames q (currentTimestamp w.now) w)).run w).val
        = .ok js := by
      rw [JobModel.run_getMany]
      exact hjs
    exact (JobModel.getMany_mem hget h).2
  · cases h

/-- **The options reach the queue exactly when they are the default ones.** After `_schedule` made the
job, as long as no pass finds it due, its record has the options of the task and any pass that comes
to the queue and takes it enqueues it with them, exactly when the task does not ask for the front of
the queue and its timeout is not zero. -/
theorem options_kept_iff {env : Env} {t t' : Task} {isAsync : Bool} {w w₁ : World} {es : List Event}
    {n : JobName} {s : Int} (hq : env.queues t.queue = some isAsync)
    (hrun : (t.schedule env).run w = ⟨.ok t', w₁, es⟩) (hn : Event.taskScheduled t.id n ∈ es)
    (hs : t'.scheduledTime = some s)
    (hown : ∀ q', q' ≠ t.queue → ¬ w.inRegistry q' .scheduled n)
    (hU : ∀ v, UserKeeps env (Stored ⟨t.queue, isAsync⟩ n v)) :
    (∀ ops, Run.Meets (PassOp.step env) (Waits env ⟨t.queue, isAsync⟩ n) (w₁, es) ops →
      Run.Along (PassOp.step env) (Keeps env t ⟨t.queue, isAsync⟩ n) (w₁, es) ops) ↔
    t.atFront = false ∧ t.timeout ≠ some 0 := by
  obtain ⟨job, w₀, hmade, hjobs, hreg, hfree, rfl⟩ := made_of_schedule hq hrun hn hs
  have hfree₀ : w₀.jobExists n = false := by
    unfold World.jobExists at hfree ⊢
    rwa [hjobs]
  have hown₀ : ∀ q', q' ≠ t.queue → ¬ w₀.inRegistry q' .scheduled n := by
    intro q' hne
    rw [World.inRegistry_iff, hreg, ← World.inRegistry_iff]
    exact hown q' hne
  have hstored := stored_of_made (q := ⟨t.queue, isAsync⟩) (s := Task.scoreOf env s) es hmade hfree₀ hown₀
  -- what is loaded from the record carries the options of the task, or never does
  have hfetch : ∀ w' t₁, Stored ⟨t.queue, isAsync⟩ n (written job) (w', t₁) → ∀ j,
      JobModel.fetch env w' n = some j →
      (Carries env.config t j ↔ t.atFront = false ∧ t.timeout ≠ some 0) := by
    intro w' t₁ hw' j hj
    obtain ⟨v, hv, hd⟩ := Option.bind_eq_some_iff.1 hj
    rw [hw'.record] at hv
    cases hv
    exact carries_iff hmade hd
  constructor
  · intro hall
    obtain ⟨j, hj, hcarries⟩ := (hall [] trivial).stored
    exact (hfetch _ es hstored j hj).1 hcarries
  · intro hcond ops hops
    have halong := Run.along_of_step (P := Stored ⟨t.queue, isAsync⟩ n (written job))
      (fun c op hc hop => hc.step (hU _) hq hop) hstored hops
    refine halong.mono fun c hc => ?_
    constructor
    · have hcomplete : (written job).complete = true :=
        JobHash.complete_storedOver_of_saveAll job _ (.inr hmade.saveAll)
      obtain ⟨j, hj⟩ := Option.isSome_iff_exists.1
        ((JobModel.deserialize_isSome_iff env.config n (written job)).2 hcomplete)
      have hload : JobModel.fetch env c.1 n = some j := by
        unfold JobModel.fetch
        rw [hc.record]
        exact hj
      exact ⟨j, hload, (hfetch c.1 c.2 hc j hload).2 hcond⟩
    · intro sch a b _ ha j hj hname
      -- no queue before this one is the job's, so nothing has happened to the record yet
      have hbefore := hc.upTo (hU _) hq a fun a' b' hab => by
        refine absurd ?_ ha
        rw [hab]
        simp
      have hload : JobModel.fetch env ((upTo env a).exec c.1) n = some j := by
        rw [← hname]
        exact name_of_loaded hj
      exact (hfetch _ _ hbefore j hload).2 hcond

end Created

/-! ## A task that asks for the front of the queue -/

def frontTask : Task := { Sample.onceTask 5000000 with atFront := true }

/-- The name of its first job. -/
def firstName : JobName := frontTask.nextJobId 0

/-- The world after `_schedule` of the task. -/
def scheduled (t : Task) : Config World Event := (t.schedule Sample.env).after (World.init 0, [])

/-- A pass over the queue before the task is due. -/
def earlyPasses : List PassOp :=
  [.tick 1000, .pass { WorkerScheduler.new ["q"] 1 10 with registries := ["q"] }]

/-- Without it the options are kept by a pass that comes early. -/
theorem sample_options_kept :
    Run.Along (PassOp.step Sample.env)
      (Keeps Sample.env (Sample.onceTask 5000000) Sample.queue firstName)
      (scheduled (Sample.onceTask 5000000)) earlyPasses := by
  have hrun : ((Sample.onceTask 5000000).schedule Sample.env).run (World.init 0)
      = ⟨.ok ((Sample.onceTask 5000000).withJob firstName), _, _⟩ := rfl
  have hown : ∀ q', q' ≠ "q" → ¬ (World.init 0).inRegistry q' .scheduled firstName := by
    intro q' _ hin
    cases hin
  refine (@options_kept_iff Sample.env (Sample.onceTask 5000000) _ true _ _ _ firstName _ rfl hrun
    (by decide +kernel) rfl hown fun v => Sample.userKeeps _).2 ⟨rfl, by decide⟩ earlyPasses ?_
  refine ⟨trivial, fun a b hab => ?_, trivial⟩
  cases a with
  | nil => decide +kernel
  | cons q' a =>
      have hlen : 1 = (q' :: (a ++ Sample.queue.name :: b)).length := congrArg List.length hab
      simp at hlen

/-- Its first job is not stored as one for the front. -/
theorem not_options_kept :
    ¬ ∀ ops, Run.Meets (PassOp.step Sample.env) (Waits Sample.env Sample.queue firstName)
        (scheduled frontTask) ops →
      Run.Along (PassOp.step Sample.env) (Keeps Sample.env frontTask Sample.queue firstName)
        (scheduled frontTask) ops := by
  intro hall
  obtain ⟨job, hjob, hcarries⟩ := (hall [] trivial).stored
  have hfront : (JobModel.fetch Sample.env (scheduled frontTask).1 firstName).map
      (fun j => j.atFront.getD false) = some false := by decide +kernel
  rw [hjob] at hfront
  have hatFront := hcarries.atFront
  have hfalse : job.atFront.getD false = false := Option.some.inj hfront
  rw [hfalse] at hatFront
  cases hatFront

end DailyScheduler.Options
