import DailyScheduler.Execution.Others
import DailyScheduler.Model.Effects
import DailyScheduler.Model.Scheduler

set_option autoImplicit false

/-! # The commands of a pass

Saving a task and a pass of the scheduler are sequences of a few kinds of commands: those of enqueuing
and of executing jobs, and the writing of rows. `Commands env R` says that all of them are in `R`.
-/

namespace DailyScheduler

open AtomicProg

/-- The commands for all jobs and all rows are in `R`, and so are the steps of user code. -/
structure Commands (env : Env) (R : World → World → List Event → Prop) : Prop where
  same : ∀ w, R w w []
  created : ∀ w n, R w w [.created n]
  taskScheduled : ∀ w id n, R w w [.taskScheduled id n]
  called : ∀ w n, R w w [.called n]
  exec : ∀ w w' es q n, ExecStep q n w w' es → R w w' es
  expire : ∀ w w' es n, ExpireStep n w w' es → R w w' es
  push : ∀ w q n s, R w ((w.zrem q .scheduled n).zadd q .queued n s) [.enqueued q n]
  schedule : ∀ w q n s, R w (w.zadd q .scheduled n s) []
  store : ∀ w t, R w (w.putTask t) []
  user : UserCode env R

namespace Commands

variable {env : Env} {R : World → World → List Event → Prop} {t : Task}

theorem others (h : Commands env R) (n : JobName) : Others env n R where
  same := h.same
  called := fun w m _ => h.called w m
  exec := fun w w' es q m _ => h.exec w w' es q m
  expire := fun w w' es m _ => h.expire w w' es m
  push := fun w q m s _ => h.push w q m s
  schedule := fun w q m s _ => h.schedule w q m s
  user := h.user

theorem read (h : Commands env R) {β : Type} (g : World → β) :
    (Prog.read g : Py β).Steps R fun _ => True :=
  fun w => ⟨h.same w, trivial⟩

/-- Every job is another job than some. -/
theorem exists_other (n : JobName) : ∃ m : JobName, n ≠ m := by
  by_cases hn : n = ""
  · exact ⟨"a", by rw [hn]; decide⟩
  · exact ⟨"", hn⟩

theorem enqueueJob_steps (h : Commands env R) (q : Queue) (j : JobModel) (atFront : Bool) :
    (q.enqueueJob env j atFront).Steps R fun _ => True := by
  obtain ⟨n, hn⟩ := exists_other j.name
  exact (h.others n).enqueueJob_steps hn atFront

theorem placeJob_steps (h : Commands env R) (q : Queue) (j : JobModel) (when' : Queue.When)
    (atFront : Bool) : (q.placeJob env j when' atFront).Steps R fun _ => True := by
  obtain ⟨n, hn⟩ := exists_other j.name
  exact (h.others n).placeJob_steps hn when' atFront

theorem create_steps (h : Commands env R) (a : JobArgs) (queueName : QueueName)
    (status : JobStatus) : (JobModel.create env a queueName status).Steps R fun _ => True := by
  refine Prog.Steps.ite (fun _ => trivial) fun _ => ?_
  have hpick : (JobModel.pickName a.name queueName a.scheduledTaskId).Steps R fun _ => True := by
    unfold JobModel.pickName
    cases a.name with
    | none => exact (h.read _).bind fun _ _ => trivial
    | some n => exact (h.read _).bind fun _ _ => Prog.Steps.ite (fun _ => trivial) fun _ => trivial
  refine hpick.bind fun name _ => (h.read _).bind fun now _ => ?_
  have hsave : ∀ j : JobModel, (j.save false).Steps R fun _ => True := fun j =>
    (save_steps false rfl).mono (fun w w' es hs => hs.elim (h.exec w w' es queueName j.name) id)
      fun _ _ => trivial
  have hget : ∀ j : JobModel, (After.get (j.save false)).Steps R fun _ => True := fun j =>
    After.get_steps (hsave j) fun _ _ _ => trivial
  refine (hget _).bind fun r _ => ?_
  exact (Prog.Steps.emit fun w => h.created w _).bind fun _ _ => trivial

theorem createAndEnqueueJob_steps (h : Commands env R) (q : Queue) (a : JobArgs)
    (when' : Queue.When) (atFront : Bool) :
    (q.createAndEnqueueJob env a when' atFront).Steps R fun _ => True :=
  (h.create_steps a q.name _).bind fun j _ => h.placeJob_steps q j when' atFront

/-! ## Tasks -/

theorem describe_steps (h : Commands env R) (t : Task) :
    (t.describe env).Steps R fun _ => True := by
  refine (h.read _).bind fun args _ => ?_
  cases argsError env args with
  | some x => trivial
  | none =>
      refine (h.read _).bind fun kwargs _ => ?_
      cases argsError env (kwargs.map TaskKwarg.toTaskArg) <;> trivial

theorem rqueue_steps (t : Task) : (t.rqueue env).Steps R fun _ => True := by
  unfold Task.rqueue getQueue
  cases env.queues t.queue <;> trivial

theorem store_steps (h : Commands env R) (t : Task) : t.store.Steps R fun _ => True :=
  Prog.Steps.write fun w => h.store w t

theorem isScheduled_steps (h : Commands env R) (t : Task) :
    (t.isScheduled env).Steps R fun _ => True := by
  unfold Task.isScheduled
  cases t.jobName with
  | none => trivial
  | some n =>
      refine (rqueue_steps t).bind fun q _ => (h.read _).bind fun res _ => ?_
      refine Prog.Steps.ite (fun _ => trivial) fun _ => ?_
      exact (h.store_steps _).bind fun _ _ => trivial

theorem createJob_steps (h : Commands env R) (t : Task) : (t.createJob env).Steps R fun _ => True := by
  have hargs : (t.readEnqueueArgs env).Steps R fun _ => True := by
    refine (h.read _).bind fun now _ => ?_
    cases t.jobMeta <;> trivial
  refine hargs.bind fun args _ => (rqueue_steps t).bind fun q _ => ?_
  refine (h.createAndEnqueueJob_steps q args _ _).bind fun job _ => ?_
  exact (Prog.Steps.emit fun w => h.taskScheduled w _ _).bind fun _ _ => trivial

theorem scheduleNext_steps (h : Commands env R) (t : Task) :
    (t.scheduleNext env).Steps R fun _ => True := by
  refine Prog.Steps.ite (fun _ => ?_) fun _ => ?_
  · exact (h.describe_steps t).bind fun _ _ => trivial
  · refine (h.read _).bind fun now _ => ?_
    cases t.scheduleTime env now with
    | error x => trivial
    | ok t' =>
        refine (h.read _).bind fun now' _ => ?_
        cases t'.inThePast now' with
        | error x => trivial
        | ok past =>
            cases past with
            | true => exact (h.describe_steps t').bind fun _ _ => trivial
            | false => exact h.createJob_steps t'

theorem schedule_steps (h : Commands env R) (t : Task) : (t.schedule env).Steps R fun _ => True := by
  refine (h.isScheduled_steps t).bind fun r _ => ?_
  exact Prog.Steps.ite (fun _ => trivial) fun _ => h.scheduleNext_steps r.1

theorem saveCleaned_steps (h : Commands env R) (t : Task) (scheduleJob : Bool) :
    (t.saveCleaned env scheduleJob).Steps R fun _ => True := by
  refine (h.store_steps t).bind fun _ _ => Prog.Steps.ite (fun _ => ?_) fun _ => trivial
  refine (h.schedule_steps t).bind fun t' _ => ?_
  exact (h.store_steps t').bind fun _ _ => trivial

/-! ## The pass -/

theorem rescheduleTasks_steps (h : Commands env R) :
    (rescheduleTasks env).Steps R fun _ => True := by
  refine (h.read _).bind fun tasks _ => Prog.Steps.forEach fun t _ => ?_
  refine (h.describe_steps t).bind fun _ _ => ?_
  exact (h.saveCleaned_steps t true).bind fun _ _ => trivial

theorem enqueueFrom_steps (h : Commands env R) (q : QueueName) :
    (WorkerScheduler.enqueueFrom env q).Steps R fun _ => True := by
  refine (h.read _).bind fun timestamp _ => ?_
  have hnames : ((Registry.mk q .scheduled).getJobsToSchedule timestamp).Steps R fun _ => True :=
    h.read _
  refine hnames.bind fun names _ => Prog.Steps.ite (fun _ => trivial) fun _ => ?_
  have hqueue : (getQueue env q).Steps R fun _ => True := by
    unfold getQueue
    cases env.queues q <;> trivial
  refine hqueue.bind fun queue _ => ?_
  refine (getMany_steps h.same env names).bind fun jobs _ => Prog.Steps.forEach fun job _ => ?_
  cases job with
  | none => trivial
  | some j => exact (h.enqueueJob_steps queue j _).bind fun _ _ => trivial

theorem enqueueScheduledJobs_steps (h : Commands env R) (s : WorkerScheduler) :
    (s.enqueueScheduledJobs env).Steps R fun s' => s' = { s with status := .started } := by
  refine h.rescheduleTasks_steps.bind fun _ _ => ?_
  exact (Prog.Steps.forEach fun q _ => h.enqueueFrom_steps q).bind fun _ _ => rfl

end Commands

end DailyScheduler
