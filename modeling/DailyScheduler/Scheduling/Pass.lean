import DailyScheduler.Execution.Keeps
import DailyScheduler.Model.Effects
import DailyScheduler.Model.Scheduler
import DailyScheduler.Tasks.Save

set_option autoImplicit false

/-! # What a scheduler pass keeps

An invariant about one scheduled entry is kept by `_reschedule_tasks`, by the callbacks of tasks and
by the rounds of `enqueue_scheduled_jobs` for other queues, as long as the jobs these enqueue are
none the invariant forbids (`may`). That a new job is none of them follows from the check of
`create` that its name is free.
-/

namespace DailyScheduler

open AtomicProg

/-- The commands of enqueuing and of running a job at once keep the invariant `I`, for the jobs `m`
and the queues `q` with `may q m`. -/
structure SparedJobs (env : Env) (may : QueueName → JobName → Prop)
    (I : Config World Event → Prop) : Prop where
  save : ∀ w t q j sa, may q j.name → I (w, t) → I (w.saveJob j sa, t)
  created : ∀ w t m, I (w, t) → I (w, t ++ [.created m])
  taskScheduled : ∀ w t id m, I (w, t) → I (w, t ++ [.taskScheduled id m])
  schedule : ∀ w t q m s, may q m → I (w, t) → I (w.zadd q .scheduled m s, t)
  push : ∀ w t q m s, env.queues q = some true → may q m → I (w, t) →
    I ((w.zrem q .scheduled m).zadd q .queued m s, t ++ [.enqueued q m])
  exec : ∀ q m, env.queues q = some false → may q m → ExecKeeps q m I
  expire : ∀ w t w' es q m, env.queues q = some false → may q m → ExpireStep m w w' es →
    I (w, t) → I (w', t ++ es)
  fresh : ∀ w t q m, I (w, t) → w.jobExists m = false → may q m
  user : UserKeeps env I

/-- The commands of enqueuing, of running a job at once and of scheduling the task `i` keep the invariant
`I`, for the jobs `m` and the queues `q` with `may q m`. -/
structure SparedSave (env : Env) (may : QueueName → JobName → Prop) (i : Nat)
    (I : Config World Event → Prop) : Prop where
  save : ∀ w t q j sa, may q j.name → I (w, t) → I (w.saveJob j sa, t)
  created : ∀ w t m, I (w, t) → I (w, t ++ [.created m])
  taskScheduled : ∀ w t m, (∀ q, may q m) → I (w, t) → I (w, t ++ [.taskScheduled i m])
  schedule : ∀ w t q m s, may q m → I (w, t) → I (w.zadd q .scheduled m s, t)
  push : ∀ w t q m s, env.queues q = some true → may q m → I (w, t) →
    I ((w.zrem q .scheduled m).zadd q .queued m s, t ++ [.enqueued q m])
  exec : ∀ q m, env.queues q = some false → may q m → ExecKeeps q m I
  expire : ∀ w t w' es q m, env.queues q = some false → may q m → ExpireStep m w w' es →
    I (w, t) → I (w', t ++ es)
  user : ∀ q, env.queues q = some false → UserKeeps env I

/-- The commands of enqueuing, of running a job at once and of saving tasks keep the invariant `I`,
for the jobs `m` and the queues `q` with `may q m`. -/
structure Spared (env : Env) (may : QueueName → JobName → Prop) (I : Config World Event → Prop) :
    Prop where
  save : ∀ w t q j sa, may q j.name → I (w, t) → I (w.saveJob j sa, t)
  store : ∀ w t x, I (w, t) → I (w.putTask x, t)
  created : ∀ w t m, I (w, t) → I (w, t ++ [.created m])
  taskScheduled : ∀ w t id m, I (w, t) → I (w, t ++ [.taskScheduled id m])
  schedule : ∀ w t q m s, may q m → I (w, t) → I (w.zadd q .scheduled m s, t)
  push : ∀ w t q m s, env.queues q = some true → may q m → I (w, t) →
    I ((w.zrem q .scheduled m).zadd q .queued m s, t ++ [.enqueued q m])
  exec : ∀ q m, env.queues q = some false → may q m → ExecKeeps q m I
  expire : ∀ w t w' es q m, env.queues q = some false → may q m → ExpireStep m w w' es →
    I (w, t) → I (w', t ++ es)
  fresh : ∀ w t q m, I (w, t) → w.jobExists m = false → may q m
  user : UserKeeps env I

/-- Storing a row keeps the invariant, whichever row of the task with that id it is. -/
def SparedRow (id : Nat) (I : Config World Event → Prop) : Prop :=
  ∀ w t (x : Task), x.id = id → I (w, t) → I (w.putTask x, t)

theorem Spared.jobs {env : Env} {may : QueueName → JobName → Prop}
    {I : Config World Event → Prop} (h : Spared env may I) : SparedJobs env may I :=
  ⟨h.save, h.created, h.taskScheduled, h.schedule, h.push, h.exec, h.expire, h.fresh, h.user⟩

theorem Spared.row {env : Env} {may : QueueName → JobName → Prop}
    {I : Config World Event → Prop} (h : Spared env may I) (id : Nat) : SparedRow id I :=
  fun w t x _ hw => h.store w t x hw

section Methods

variable {env : Env} {may : QueueName → JobName → Prop} {I : Config World Event → Prop}

/-- A reading of which nothing is used. -/
theorem read_inv {β : Type} (g : World → β) : (Prog.read g : Py β).Inv I fun _ => True :=
  Prog.Inv.read fun _ _ _ => trivial

/-- `enqueue_job` computes its score from what it reads. -/
theorem enqueueScore_inv (q : Queue) (atFront : Bool) :
    (q.enqueueScore atFront).Inv I fun _ => True := by
  refine Prog.Inv.ite (fun _ => read_inv _) fun _ => ?_
  have hlast : q.queuedJobRegistry.getLastTimestamp.Inv I fun _ => True := by
    refine Prog.Inv.bind (Q := fun _ => True) ?_ fun _ _ => Prog.Inv.ret trivial
    exact Prog.Inv.bind (Q := fun _ => True) (Prog.Inv.ret trivial) fun _ _ => read_inv _
  refine hlast.bind fun last _ => ?_
  cases last with
  | none => exact read_inv _
  | some t => exact Prog.Inv.ite (fun _ => read_inv _) fun _ => Prog.Inv.ret trivial

namespace SparedSave

variable {i : Nat}

theorem save_inv (h : SparedSave env may i I) {q : QueueName} {j : JobModel} (hm : may q j.name)
    (sa : Bool) : (j.save sa).Inv I (Named j.name) :=
  Prog.Inv.ite (fun _ => (Prog.Inv.write fun w t hw => h.save w t q j sa hm hw).bind fun _ _ =>
    Prog.Inv.ret rfl) fun _ => Prog.Inv.ret rfl

/-- `enqueue_job`, of a job that may be enqueued. -/
theorem enqueueJob_inv (h : SparedSave env may i I) {q : Queue}
    (hq : env.queues q.name = some q.isAsync) {j : JobModel} (hm : may q.name j.name)
    (atFront : Bool) : (q.enqueueJob env j atFront).Inv I fun j' => j'.name = j.name := by
  refine (read_inv _).bind fun now _ => ?_
  refine (After.get_inv (Q := fun r => r.1.name = j.name)
    (h.save_inv (j := Queue.enqueuedModel j now) hm false) fun _ _ hr => hr).bind fun r hr => ?_
  obtain ⟨j', u⟩ := r
  have hj' : j'.name = j.name := hr
  refine Prog.Inv.ite (fun ha => ?_) fun ha => ?_
  · rw [ha] at hq
    refine (enqueueScore_inv q atFront).bind fun s _ => ?_
    refine Prog.Inv.bind (Q := fun _ => True) ?_ fun _ _ => Prog.Inv.ret hj'
    exact Prog.Inv.command fun w t hw => ⟨h.push w t q.name j'.name s hq (hj' ▸ hm) hw, trivial⟩
  · rw [Bool.eq_false_of_not_eq_true ha] at hq
    have hx := h.exec q.name j.name hq hm
    refine (After.get_inv (Q := fun r => r.1.name = j.name)
      (runSync_inv hx (h.user q.name hq) hj') fun _ _ hr => hr).bind fun r hr => ?_
    obtain ⟨j'', u⟩ := r
    have hj'' : j''.name = j.name := hr
    refine Prog.Inv.of_steps (expire_steps hj'' j''.jobInfoTtl) ?_
    exact fun w t w' es hs hw => h.expire w t w' es q.name j.name hq hm hs hw

/-- `create`, for a given name that may be used when it is free. -/
theorem create_inv (h : SparedSave env may i I) {a : JobArgs} {m : JobName} (ha : a.name = some m)
    (hfree : ∀ w t, I (w, t) → w.jobExists m = false → ∀ q, may q m) (q : QueueName)
    (status : JobStatus) : (JobModel.create env a q status).Inv I fun j => ∀ q', may q' j.name := by
  refine Prog.Inv.ite (fun _ => Prog.Inv.raise) fun _ => ?_
  have hpick : (JobModel.pickName a.name q a.scheduledTaskId).Inv I fun n => ∀ q', may q' n := by
    rw [ha]
    have hfound : (JobModel.exists_ m).Inv I fun found => found = false → ∀ q', may q' m :=
      Prog.Inv.read fun w t hw hf => hfree w t hw hf
    refine hfound.bind fun found hf => ?_
    refine Prog.Inv.ite (fun _ => Prog.Inv.raise) fun hno => Prog.Inv.ret ?_
    exact hf (Bool.eq_false_of_not_eq_true hno)
  refine hpick.bind fun n hn => (read_inv _).bind fun now _ => ?_
  have hsave := h.save_inv (j := JobModel.new env.config a q n status now) (hn q) false
  refine (After.get_inv (Q := fun r => r.1.name = n) hsave fun _ _ hr => hr).bind fun r hr => ?_
  obtain ⟨j, u⟩ := r
  have hj : j.name = n := hr
  refine (Prog.Inv.emit fun w t hw => h.created w t n hw).bind fun _ _ => ?_
  exact Prog.Inv.ret fun q' => hj ▸ hn q'

theorem createAndEnqueueJob_inv (h : SparedSave env may i I) {q : Queue}
    (hq : env.queues q.name = some q.isAsync) {a : JobArgs} {m : JobName} (ha : a.name = some m)
    (hfree : ∀ w t, I (w, t) → w.jobExists m = false → ∀ q, may q m) (when' : Queue.When)
    (atFront : Bool) :
    (q.createAndEnqueueJob env a when' atFront).Inv I fun j => ∀ q', may q' j.name := by
  refine (h.create_inv ha hfree q.name _).bind fun j hj => ?_
  cases when' with
  | none => exact (h.enqueueJob_inv hq (hj q.name) atFront).mono fun j' hj' => hj' ▸ hj
  | datetime s =>
      refine (After.get_inv (Q := fun r => r.1.name = j.name) (h.save_inv (hj q.name) false)
        fun _ _ hr => hr).bind fun r hr => ?_
      obtain ⟨j', u⟩ := r
      have hj' : j'.name = j.name := hr
      refine Prog.Inv.bind (Q := fun _ => True) ?_ fun _ _ => Prog.Inv.ret (hj' ▸ hj)
      exact Prog.Inv.write fun w t hw =>
        h.schedule w t q.name j'.name (s.timestamp env) (hj' ▸ hj q.name) hw
  | other => exact Prog.Inv.raise

end SparedSave

theorem getQueue_inv (name : QueueName) : (getQueue env name).Inv I fun q =>
    q.name = name ∧ env.queues name = some q.isAsync := by
  unfold getQueue
  cases hq : env.queues name with
  | none => exact Prog.Inv.raise
  | some isAsync => exact Prog.Inv.ret ⟨rfl, rfl⟩

/-! ## Tasks -/

/-- `__str__` reads only. -/
theorem describe_inv (x : Task) : (x.describe env).Inv I fun _ => True := by
  refine (read_inv _).bind fun args _ => ?_
  cases argsError env args with
  | some e => exact Prog.Inv.raise
  | none =>
      refine (read_inv _).bind fun kwargs _ => ?_
      cases argsError env (kwargs.map TaskKwarg.toTaskArg) with
      | some e => exact Prog.Inv.raise
      | none => exact Prog.Inv.ret trivial

theorem SparedRow.store_inv {x : Task} (h : SparedRow x.id I) : x.store.Inv I fun _ => True :=
  Prog.Inv.write fun w t hw => h w t x rfl hw

/-- `is_scheduled` forgets at most the name of the job. -/
theorem SparedRow.isScheduled_inv {x : Task} (h : SparedRow x.id I) :
    (x.isScheduled env).Inv I fun r => r.1 = x ∨ r.1 = x.forgotten := by
  unfold Task.isScheduled
  cases x.jobName with
  | none => exact Prog.Inv.ret (.inl rfl)
  | some n =>
      refine (getQueue_inv _).bind fun q _ => (read_inv _).bind fun res _ => ?_
      refine Prog.Inv.ite (fun _ => Prog.Inv.ret (.inl rfl)) fun _ => ?_
      have hrow : SparedRow (x.forgotten).id I := h
      exact hrow.store_inv.bind fun _ _ => Prog.Inv.ret (.inr rfl)

/-- The name of the next job of `x` may be used when it is free. -/
def FreeName (may : QueueName → JobName → Prop) (I : Config World Event → Prop) (x : Task) : Prop :=
  ∀ c w t, I c → I (w, t) → w.jobExists (x.nextJobId c.1.now) = false →
    ∀ q, may q (x.nextJobId c.1.now)

namespace SparedSave

variable {i : Nat} {x : Task}

theorem createJob_inv (h : SparedSave env may x.id I) (hname : FreeName may I x) :
    (x.createJob env).Inv I fun x' => x'.id = x.id := by
  have hargs : (x.readEnqueueArgs env).Inv I fun a =>
      ∃ c, I c ∧ a.name = some (x.nextJobId c.1.now) := by
    have hnow : (utcnow : Py Int).Inv I fun now => ∃ c, I c ∧ c.1.now = now :=
      Prog.Inv.read fun w t hw => ⟨(w, t), hw, rfl⟩
    refine hnow.bind fun now hnow => ?_
    obtain ⟨c, hc, rfl⟩ := hnow
    cases x.jobMeta with
    | error e => exact Prog.Inv.raise
    | ok m => exact Prog.Inv.ret ⟨c, hc, rfl⟩
  refine hargs.bind fun a ha => (getQueue_inv _).bind fun q hq => ?_
  obtain ⟨c, hc, ha⟩ := ha
  have hq' : env.queues q.name = some q.isAsync := hq.1 ▸ hq.2
  have hcreate := h.createAndEnqueueJob_inv hq' ha (fun w t hw hf => hname c w t hc hw hf)
    (Task.whenOf env x.scheduledTime) x.atFront
  refine hcreate.bind fun j hj => ?_
  refine (Prog.Inv.emit fun w t hw => h.taskScheduled w t _ hj hw).bind fun _ _ => ?_
  exact Prog.Inv.ret rfl

/-- What `_schedule_time` returns has the same next name. -/
theorem FreeName.scheduleTime (hname : FreeName may I x) {x' : Task} {now : Int}
    (htime : x.scheduleTime env now = .ok x') : FreeName may I x' := by
  have hsame : ∀ now, x'.nextJobId now = x.nextJobId now := by
    intro now
    rw [Task.scheduleTime_frame htime]
    rfl
  unfold FreeName
  simp only [hsame]
  exact hname

theorem scheduleNext_inv (h : SparedSave env may x.id I) (hname : FreeName may I x) :
    (x.scheduleNext env).Inv I fun x' => x'.id = x.id := by
  refine Prog.Inv.ite (fun _ => ?_) fun _ => ?_
  · exact (describe_inv x).bind fun _ _ => Prog.Inv.ret rfl
  refine (read_inv _).bind fun now _ => ?_
  cases htime : x.scheduleTime env now with
  | error e => exact Prog.Inv.raise
  | ok x' =>
      have hid : x'.id = x.id := Task.id_of_scheduleTime htime
      refine (read_inv _).bind fun now' _ => ?_
      cases x'.inThePast now' with
      | error e => exact Prog.Inv.raise
      | ok late =>
          cases late with
          | true => exact (describe_inv x').bind fun _ _ => Prog.Inv.ret hid
          | false =>
              have h' : SparedSave env may x'.id I := by
                rw [hid]
                exact h
              exact (h'.createJob_inv (FreeName.scheduleTime hname htime)).mono fun x'' hx'' =>
                hx''.trans hid

theorem schedule_inv (h : SparedSave env may x.id I) (hrow : SparedRow x.id I)
    (hname : FreeName may I x) : (x.schedule env).Inv I fun x' => x'.id = x.id := by
  refine hrow.isScheduled_inv.bind fun r hr => ?_
  obtain ⟨x', found⟩ := r
  rcases hr with hr | hr
  · have hx : x' = x := hr
    subst hx
    exact Prog.Inv.ite (fun _ => Prog.Inv.ret rfl) fun _ => h.scheduleNext_inv hname
  · have hx : x' = x.forgotten := hr
    subst hx
    have h' : SparedSave env may x.forgotten.id I := h
    have hname' : FreeName may I x.forgotten := hname
    exact Prog.Inv.ite (fun _ => Prog.Inv.ret rfl) fun _ => h'.scheduleNext_inv hname'

/-- `save` once `clean` has accepted the object. -/
theorem saveCleaned_inv (h : SparedSave env may x.id I) (hrow : SparedRow x.id I)
    (hname : FreeName may I x) (scheduleJob : Bool) :
    (x.saveCleaned env scheduleJob).Inv I fun _ => True := by
  refine hrow.store_inv.bind fun _ _ => ?_
  refine Prog.Inv.ite (fun _ => ?_) fun _ => Prog.Inv.ret trivial
  refine (h.schedule_inv hrow hname).bind fun x' hx' => ?_
  have hrow' : SparedRow x'.id I := by
    rw [hx']
    exact hrow
  exact hrow'.store_inv.bind fun _ _ => Prog.Inv.ret trivial

end SparedSave

namespace SparedJobs

/-- Which task is scheduled does not matter to the invariant, and a free name is one it allows. -/
theorem spares (h : SparedJobs env may I) (i : Nat) : SparedSave env may i I :=
  ⟨h.save, h.created, fun w t m _ hw => h.taskScheduled w t i m hw, h.schedule, h.push, h.exec,
    h.expire, fun _ _ => h.user⟩

theorem freeName (h : SparedJobs env may I) (x : Task) : FreeName may I x :=
  fun _ w t _ hw hf q => h.fresh w t q _ hw hf

/-- `save` of a task whose row the invariant says nothing about. -/
theorem saveTask_inv (h : SparedJobs env may I) {x : Task} (hrow : SparedRow x.id I)
    (scheduleJob : Bool) : (x.save env false scheduleJob).Inv I fun _ => True :=
  (h.spares x.id).saveCleaned_inv hrow (h.freeName x) scheduleJob

/-- `enqueue_job`, of a job that may be enqueued. -/
theorem enqueueJob_inv (h : SparedJobs env may I) {q : Queue}
    (hq : env.queues q.name = some q.isAsync) {j : JobModel} (hm : may q.name j.name)
    (atFront : Bool) : (q.enqueueJob env j atFront).Inv I fun _ => True :=
  ((h.spares 0).enqueueJob_inv hq hm atFront).of_true

end SparedJobs

namespace Spared

theorem rescheduleTasks_inv (h : Spared env may I) :
    (rescheduleTasks env).Inv I fun _ => True := by
  refine (read_inv _).bind fun tasks _ => Prog.Inv.forEach fun x _ => ?_
  refine (describe_inv x).bind fun _ _ => ?_
  exact (h.jobs.saveTask_inv (h.row x.id) true).bind fun _ _ => Prog.Inv.ret trivial

end Spared

/-! ## The round of one queue -/

/-- The round of `enqueue_scheduled_jobs` for a queue whose scheduled jobs may be enqueued. -/
theorem SparedSave.enqueueFrom_inv {i : Nat} (h : SparedSave env may i I) {q : QueueName}
    (hmay : ∀ w t m isAsync, env.queues q = some isAsync → I (w, t) →
      w.inRegistry q .scheduled m → may q m) :
    (WorkerScheduler.enqueueFrom env q).Inv I fun _ => True := by
  refine (read_inv _).bind fun timestamp _ => ?_
  have hnames : ((Registry.mk q .scheduled).getJobsToSchedule timestamp).Inv I fun names =>
      ∀ m ∈ names, ∀ isAsync, env.queues q = some isAsync → may q m := by
    refine Prog.Inv.read fun w t hw m hm isAsync hconf => ?_
    obtain ⟨p, hp, rfl⟩ := List.mem_map.1 hm
    obtain ⟨hs, -⟩ := (SortedSet.mem_rangeByScore _ _ _ _ _).1 (List.mem_of_mem_take hp)
    exact hmay w t p.2 isAsync hconf hw (by rw [World.inRegistry_iff, hs]; rfl)
  refine hnames.bind fun names hall => ?_
  refine Prog.Inv.ite (fun _ => Prog.Inv.ret trivial) fun _ => ?_
  refine (getQueue_inv q).bind fun queue hqueue => ?_
  have hget : (JobModel.getMany env names).Inv I fun js => ∀ j, some j ∈ js → j.name ∈ names :=
    Prog.Inv.of_steps (getMany_steps (R := fun w w' es => w' = w ∧ es = [])
      (fun _ => ⟨rfl, rfl⟩) env names) fun w t w' es h hI => by
        obtain ⟨rfl, rfl⟩ := h
        simpa using hI
  refine hget.bind fun js hjs => Prog.Inv.forEach fun job hjob => ?_
  cases job with
  | none => exact Prog.Inv.ret trivial
  | some j =>
      have hq : env.queues queue.name = some queue.isAsync := hqueue.1 ▸ hqueue.2
      have hm : may queue.name j.name := hqueue.1 ▸ hall j.name (hjs j hjob) _ hqueue.2
      exact (h.enqueueJob_inv hq hm _).bind fun _ _ => Prog.Inv.ret trivial

theorem SparedJobs.enqueueFrom_inv (h : SparedJobs env may I) {q : QueueName}
    (hmay : ∀ w t m isAsync, env.queues q = some isAsync → I (w, t) →
      w.inRegistry q .scheduled m → may q m) :
    (WorkerScheduler.enqueueFrom env q).Inv I fun _ => True :=
  (h.spares 0).enqueueFrom_inv hmay

end Methods

end DailyScheduler
