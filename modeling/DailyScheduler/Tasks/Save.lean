import DailyScheduler.Model.Effects
import DailyScheduler.Model.Task

set_option autoImplicit false

/-! # Saving a task alone

What `Task.save` and the functions below it do to the world when nothing comes in between.
-/

namespace DailyScheduler.Task

open AtomicProg

variable {env : Env}

/-! ## Printing -/

/-- What `__str__` raises, if it does. -/
def describeError (env : Env) (t : Task) (w : World) : Option PyError :=
  (argsError env (w.taskArgs t.id)).or
    (argsError env ((w.taskKwargs t.id).map TaskKwarg.toTaskArg))

theorem run_describe (t : Task) (w : World) :
    (t.describe env).run w = match t.describeError env w with
      | some x => ⟨.error x, w, []⟩
      | none => ⟨.ok (), w, []⟩ := by
  unfold describe describeError
  rw [Prog.run_bind, Prog.run_read, Prog.Outcome.andThen_ok]
  cases argsError env (w.taskArgs t.id) with
  | some x => rfl
  | none =>
      simp only [Prog.run_bind, Prog.run_read, Prog.Outcome.andThen_ok, Option.none_or]
      cases argsError env ((w.taskKwargs t.id).map TaskKwarg.toTaskArg) <;> rfl

/-- What comes after the printing is done if that does not raise. -/
theorem exec_describe_bind {α : Type} (t : Task) (p : Py α) (w : World) :
    (t.describe env >>= fun _ => p).exec w = match t.describeError env w with
      | some _ => w
      | none => p.exec w := by
  rw [Prog.exec, Prog.run_bind, run_describe]
  cases t.describeError env w <;> rfl

/-! ## `is_scheduled` -/

/-- The job named by `job_name` waits or runs in the task's queue. -/
def Pending (t : Task) (w : World) : Prop :=
  ∃ n, t.jobName = some n ∧ (w.inRegistry t.queue .scheduled n ∨ w.inRegistry t.queue .queued n ∨
    w.inRegistry t.queue .active n)

section Pending

variable {t : Task} {n : JobName} {w w' : World}

/-- A job that waits or runs in the queue of the task may move there. -/
theorem pending_mono (hn : t.jobName = some n)
    (h : ∀ k, k = .scheduled ∨ k = .queued ∨ k = .active → w.inRegistry t.queue k n →
      ∃ k', (k' = .scheduled ∨ k' = .queued ∨ k' = .active) ∧ w'.inRegistry t.queue k' n)
    (hp : t.Pending w) : t.Pending w' := by
  obtain ⟨n', hn', hin⟩ := hp
  have hsame : n' = n := Option.some_inj.1 (hn'.symm.trans hn)
  subst hsame
  have hsome : ∃ k', (k' = .scheduled ∨ k' = .queued ∨ k' = .active) ∧
      w'.inRegistry t.queue k' n' := by
    rcases hin with hin | hin | hin
    · exact h .scheduled (.inl rfl) hin
    · exact h .queued (.inr (.inl rfl)) hin
    · exact h .active (.inr (.inr rfl)) hin
  obtain ⟨k', rfl | rfl | rfl, hin'⟩ := hsome
  · exact ⟨n', hn, .inl hin'⟩
  · exact ⟨n', hn, .inr (.inl hin')⟩
  · exact ⟨n', hn, .inr (.inr hin')⟩

theorem pending_zadd (hn : t.jobName = some n) (q : QueueName) (k : RegistryKind) (n' : JobName)
    (s : Int) : t.Pending w → t.Pending (w.zadd q k n' s) :=
  pending_mono hn fun k' hk' hin => ⟨k', hk', (World.inRegistry_zadd ..).2 (.inr hin)⟩

theorem pending_zrem (hn : t.jobName = some n) (q : QueueName) (k : RegistryKind) {n' : JobName}
    (hne : n' ≠ n) : t.Pending w → t.Pending (w.zrem q k n') :=
  pending_mono hn fun k' hk' hin =>
    ⟨k', hk', (World.inRegistry_zrem ..).2 ⟨fun h => hne h.2.2.symm, hin⟩⟩

/-- The pipeline of `enqueue_job` takes a name out of the scheduled registry only to queue it. -/
theorem pending_push (hn : t.jobName = some n) (q : QueueName) (n' : JobName) (s : Int) :
    t.Pending w → t.Pending ((w.zrem q .scheduled n').zadd q .queued n' s) := by
  refine pending_mono hn fun k hk hin => ?_
  by_cases hmoved : t.queue = q ∧ k = .scheduled ∧ n = n'
  · obtain ⟨rfl, -, rfl⟩ := hmoved
    exact ⟨.queued, .inr (.inl rfl), (World.inRegistry_zadd ..).2 (.inl ⟨rfl, rfl, rfl⟩)⟩
  · refine ⟨k, hk, (World.inRegistry_zadd ..).2 (.inr ?_)⟩
    exact (World.inRegistry_zrem ..).2 ⟨hmoved, hin⟩

end Pending

/-- The task without its job. -/
def forgotten (t : Task) : Task := { t with jobName := none }

@[simp] theorem forgotten_id (t : Task) : t.forgotten.id = t.id := rfl
@[simp] theorem forgotten_jobName (t : Task) : t.forgotten.jobName = none := rfl

theorem run_rqueue {t : Task} {isAsync : Bool} (hq : env.queues t.queue = some isAsync)
    (w : World) : (t.rqueue env).run w = ⟨.ok ⟨t.queue, isAsync⟩, w, []⟩ := by
  unfold rqueue getQueue
  rw [hq]
  rfl

theorem run_isScheduled_of_none {t : Task} (h : t.jobName = none) (w : World) :
    (t.isScheduled env).run w = ⟨.ok (t, false), w, []⟩ := by
  unfold isScheduled
  rw [h]
  rfl

theorem run_isScheduled_of_some {t : Task} {n : JobName} {isAsync : Bool} (h : t.jobName = some n)
    (hq : env.queues t.queue = some isAsync) (w : World) :
    (t.isScheduled env).run w =
      if w.inRegistry t.queue .scheduled n ∨ w.inRegistry t.queue .queued n ∨
          w.inRegistry t.queue .active n then ⟨.ok (t, true), w, []⟩
      else ⟨.ok (t.forgotten, false), w.putTask t.forgotten, []⟩ := by
  unfold isScheduled
  rw [h]
  simp only [Prog.run_bind, run_rqueue hq, Prog.Outcome.andThen_ok, Prog.run_read, List.nil_append]
  by_cases hp : w.inRegistry t.queue .scheduled n ∨ w.inRegistry t.queue .queued n ∨
      w.inRegistry t.queue .active n
  · have hdec : (decide (w.inRegistry t.queue .scheduled n)
        || decide (w.inRegistry t.queue .queued n)
        || decide (w.inRegistry t.queue .active n)) = true := by
      simpa [or_assoc] using hp
    rw [if_pos hp, hdec]
    rfl
  · have hdec : (decide (w.inRegistry t.queue .scheduled n)
        || decide (w.inRegistry t.queue .queued n)
        || decide (w.inRegistry t.queue .active n)) = false := by
      rw [Bool.eq_false_iff]
      simpa [or_assoc] using hp
    rw [if_neg hp, hdec]
    rfl

/-! ## Making the next job -/

/-- The name of the next job. -/
abbrev nextName (t : Task) (w : World) : JobName := t.nextJobId w.now

/-- `create` accepts the next job: its timeout is not zero and its name is free. -/
def JobFree (env : Env) (t : Task) (w : World) : Prop :=
  JobModel.timeoutOrDefault env.config t.timeout ≠ 0 ∧ w.jobExists (t.nextName w) = false

theorem encodes_jobMeta {t : Task} {m : PyValue} (h : t.jobMeta = .ok m) : m.encodes = true := by
  unfold jobMeta at h
  split at h
  · cases hi : t.intervalSeconds with
    | error x =>
        rw [hi] at h
        cases h
    | ok i =>
        rw [hi] at h
        cases h
        cases t.repeat <;> rfl
  · cases h
    rfl

theorem createError_enqueueArgs {t : Task} {m : PyValue} (hm : t.jobMeta = .ok m) (w : World) :
    JobModel.createError env (t.enqueueArgs env (t.nextName w) m) w = none ↔ t.JobFree env w := by
  let a := t.enqueueArgs env (t.nextName w) m
  have hencodes : (a.args.encodes && a.kwargs.encodes && a.metadata.encodes) = true := by
    show ((PyValue.tuple [.str t.taskType.value, .int t.id]).encodes && (PyValue.dict []).encodes
      && m.encodes) = true
    rw [encodes_jobMeta hm]
    rfl
  unfold JobModel.createError JobFree
  by_cases ht : JobModel.timeoutOrDefault env.config t.timeout = 0
  · have hargs : JobModel.timeoutOrDefault env.config a.timeout = 0 := ht
    rw [if_pos hargs]
    exact ⟨fun h => (by cases h), fun h => absurd ht h.1⟩
  · have hargs : ¬ JobModel.timeoutOrDefault env.config a.timeout = 0 := ht
    rw [if_neg hargs]
    cases hx : w.jobExists (t.nextName w) with
    | true =>
        have hany : (a.name.any fun n => w.jobExists n) = true := hx
        rw [if_pos hany]
        exact ⟨fun h => (by cases h), fun h => absurd h.2 (by simp)⟩
    | false =>
        have hany : ¬ (a.name.any fun n => w.jobExists n) = true := by
          rw [Bool.not_eq_true]
          exact hx
        rw [if_neg hany, if_pos hencodes]
        exact ⟨fun _ => ⟨ht, rfl⟩, fun _ => rfl⟩

/-- The task with its next job. -/
def withJob (t : Task) (n : JobName) : Task := { t with jobName := some n }

section CreateJob

variable {t : Task} {isAsync : Bool} {m : PyValue} {s : Int}

/-- The end of `_schedule`, for the value that `_schedule_time` returned. -/
theorem run_createJob_when (hq : env.queues t.queue = some isAsync) (hm : t.jobMeta = .ok m)
    (w : World) : (t.createJob env).run w
      = (((Queue.mk t.queue isAsync).createAndEnqueueJob env (t.enqueueArgs env (t.nextName w) m)
          (whenOf env t.scheduledTime) t.atFront).run w).andThen (fun job => do
        Prog.emit (.taskScheduled t.id job.name)
        pure (t.withJob job.name)) := by
  have hargs : (t.readEnqueueArgs env).run w
      = ⟨.ok (t.enqueueArgs env (t.nextName w) m), w, []⟩ := by
    unfold readEnqueueArgs
    rw [Prog.run_bind, run_utcnow, Prog.Outcome.andThen_ok, hm]
    rfl
  unfold createJob
  simp only [Prog.run_bind, hargs, Prog.Outcome.andThen_ok, run_rqueue hq, List.nil_append]
  rfl

theorem run_createJob_eq (hq : env.queues t.queue = some isAsync) (hm : t.jobMeta = .ok m)
    (hs : t.scheduledTime = some s) (w : World) :
    (t.createJob env).run w
      = (((Queue.mk t.queue isAsync).createAndEnqueueJob env (t.enqueueArgs env (t.nextName w) m)
          (.datetime (momentOf env s)) t.atFront).run w).andThen (fun job => do
        Prog.emit (.taskScheduled t.id job.name)
        pure (t.withJob job.name)) := by
  have hwhen : whenOf env t.scheduledTime = .datetime (momentOf env s) := by
    rw [hs]
    rfl
  rw [run_createJob_when hq hm, hwhen]

/-- Where the job is accepted, it is created under the next name, and put into the scheduled
registry with the score of the given time. -/
theorem run_createJob (hq : env.queues t.queue = some isAsync) (hm : t.jobMeta = .ok m)
    (hs : t.scheduledTime = some s) {w : World} (hfree : t.JobFree env w) :
    ∃ job : JobModel, job.name = t.nextName w ∧ job.saveAll = true ∧ (t.createJob env).run w
      = ⟨.ok (t.withJob (t.nextName w)),
          ((w.saveJob job false).saveJob job.saved false).zadd t.queue .scheduled (t.nextName w)
            (scoreOf env s),
          [.created (t.nextName w), .taskScheduled t.id (t.nextName w)]⟩ := by
  have hc := (createError_enqueueArgs hm w).2 hfree
  have hser := JobModel.serializable_of_createError hc t.queue .scheduled w.now
  refine ⟨JobModel.fresh env (t.enqueueArgs env (t.nextName w) m) t.queue .scheduled w.now, rfl,
    rfl, ?_⟩
  rw [run_createJob_eq hq hm hs, Queue.run_createAndEnqueueJob, hc]
  dsimp only [Queue.statusFor]
  rw [Queue.run_placeJob_datetime env _ (by exact hser)]
  rfl

/-- Otherwise nothing is done. -/
theorem run_createJob_error (hq : env.queues t.queue = some isAsync) (hm : t.jobMeta = .ok m)
    (hs : t.scheduledTime = some s) {w : World} (hfree : ¬ t.JobFree env w) :
    ∃ x, (t.createJob env).run w = ⟨.error x, w, []⟩ := by
  cases hc : JobModel.createError env (t.enqueueArgs env (t.nextName w) m) w with
  | none => exact absurd ((createError_enqueueArgs hm w).1 hc) hfree
  | some x =>
      refine ⟨x, ?_⟩
      rw [run_createJob_eq hq hm hs, Queue.run_createAndEnqueueJob, hc]
      rfl

end CreateJob

/-! ## Scheduling -/

section ScheduleTime

variable {t : Task} {now s : Int}

theorem scheduleTime_once (h : t.taskType = .once) : t.scheduleTime env now = .ok t := by
  unfold scheduleTime
  rw [h]

theorem scheduleTime_cron {c : String} (h : t.taskType = .cron) (hc : t.cronString = some c) :
    t.scheduleTime env now = match (env.croniter c).bind (· now) with
      | none => .error (.valueError c)
      | some d => .ok { t with scheduledTime := some d } := by
  unfold scheduleTime
  rewrite [h, hc]
  rfl

/-- A repeatable task keeps its time as long as that is not past. -/
theorem scheduleTime_repeatable (h : t.taskType = .repeatable) (hs : t.scheduledTime = some s)
    (hle : now ≤ s) : t.scheduleTime env now = .ok t := by
  unfold scheduleTime
  rw [h, hs]
  exact if_pos hle

theorem scheduleTime_repeatable_late {i : Int} (h : t.taskType = .repeatable)
    (hs : t.scheduledTime = some s) (hlt : s < now) (hi : t.intervalSeconds = .ok i) :
    t.scheduleTime env now = if i = 0 then .error .zeroDivisionError
      else .ok (t.advanceSchedule now s (secs i)) := by
  unfold scheduleTime
  rw [h, hs, hi]
  exact if_neg (not_le.2 hlt)

theorem advanceSchedule_of_few {step : Int} {r : Nat} (hr : t.repeat = some r)
    (hlt : (r : Int) < gap now s step) : t.advanceSchedule now s step = t := by
  unfold advanceSchedule
  rw [hr]
  exact if_neg (not_le.2 hlt)

/-- Without a limit on the repeats, or with the repeats to catch up, the time moves. -/
theorem advanceSchedule_of_enough {step : Int}
    (h : ∀ r, t.repeat = some r → gap now s step ≤ r) : t.advanceSchedule now s step
      = { t with
          scheduledTime := some (s + step * gap now s step)
          «repeat» := t.repeat.map fun r : Nat => ((r : Int) - gap now s step).toNat } := by
  unfold advanceSchedule
  cases hr : t.repeat with
  | none => rfl
  | some r => exact if_pos (h r hr)

theorem inThePast_of_cron (h : t.taskType = .cron) : t.inThePast now = .ok false := by
  unfold inThePast
  rw [h]

theorem inThePast_of_some (h : t.taskType ≠ .cron) (hs : t.scheduledTime = some s) :
    t.inThePast now = .ok (decide (s < now)) := by
  unfold inThePast
  rw [hs]
  cases hty : t.taskType with
  | cron => exact absurd hty h
  | repeatable => rfl
  | once => rfl

theorem intervalSeconds_nonneg {i : Int} (h : t.intervalSeconds = .ok i) : 0 ≤ i := by
  unfold intervalSeconds at h
  split at h
  · rename_i u n _ _
    split at h
    · cases h
    · cases h
      have hu : 0 ≤ u.length := by cases u <;> decide
      exact Int.mul_nonneg hu (Int.natCast_nonneg n)
  · cases h

/-- At least one interval has passed, and that many intervals reach to now. -/
theorem gap_spec {start step : Int} (hstep : 0 < step) (hlate : start < now) :
    1 ≤ gap now start step ∧ now ≤ start + step * gap now start step := by
  unfold gap
  have hneg : (-(now - start)) / step < 0 := Int.ediv_neg_of_neg_of_pos (by omega) hstep
  have hmul : (-(now - start)) / step * step ≤ -(now - start) := Int.ediv_mul_le _ (by omega)
  constructor
  · omega
  · have hswap : step * -(-(now - start) / step) = -((-(now - start)) / step * step) := by
      rw [Int.mul_neg, Int.mul_comm]
    rw [hswap]
    omega

end ScheduleTime

/-- `_schedule_time` changes the time and the repeats only. -/
theorem scheduleTime_frame {t t' : Task} {now : Int}
    (h : t.scheduleTime env now = .ok t') :
    t' = { t with scheduledTime := t'.scheduledTime, «repeat» := t'.repeat } := by
  unfold scheduleTime at h
  split at h
  · split at h
    · cases h
      rfl
    · split at h
      · cases h
      · cases h
        rfl
  · split at h
    · cases h
    · split at h
      · cases h
        rfl
      · split at h
        · cases h
        · split at h
          · cases h
          · cases h
            unfold advanceSchedule
            dsimp only
            split
            · rfl
            · split <;> rfl
  · cases h
    rfl

theorem id_of_scheduleTime {t t' : Task} {now : Int} (h : t.scheduleTime env now = .ok t') :
    t'.id = t.id := by
  rw [scheduleTime_frame h]

theorem run_scheduleNext_disabled {t : Task} (h : t.enabled = false) (w : World) :
    (t.scheduleNext env).run w = match t.describeError env w with
      | some x => ⟨.error x, w, []⟩
      | none => ⟨.ok t, w, []⟩ := by
  unfold scheduleNext
  rw [h, Bool.not_false, if_pos rfl, Prog.run_bind, run_describe]
  cases t.describeError env w <;> rfl

theorem run_scheduleNext {t t' : Task} (h : t.enabled = true) {w : World}
    (ht : t.scheduleTime env w.now = .ok t') :
    (t.scheduleNext env).run w = match t'.inThePast w.now with
      | .error x => ⟨.error x, w, []⟩
      | .ok true => (match t'.describeError env w with
        | some x => ⟨.error x, w, []⟩
        | none => ⟨.ok t', w, []⟩)
      | .ok false => (t'.createJob env).run w := by
  unfold scheduleNext
  rw [h, Bool.not_true, if_neg (by simp), Prog.run_bind, run_utcnow, Prog.Outcome.andThen_ok, ht]
  dsimp only
  rw [Prog.run_bind, run_utcnow, Prog.Outcome.andThen_ok]
  cases t'.inThePast w.now with
  | error x => rfl
  | ok late =>
      cases late with
      | true =>
          dsimp only
          rw [Prog.run_bind, run_describe]
          cases t'.describeError env w <;> rfl
      | false => rfl

theorem run_scheduleNext_error {t : Task} (h : t.enabled = true) {w : World} {x : PyError}
    (ht : t.scheduleTime env w.now = .error x) :
    (t.scheduleNext env).run w = ⟨.error x, w, []⟩ := by
  unfold scheduleNext
  rw [h, Bool.not_true, if_neg (by simp), Prog.run_bind, run_utcnow, Prog.Outcome.andThen_ok, ht]
  rfl

theorem run_schedule_of_none {t : Task} (h : t.jobName = none) (w : World) :
    (t.schedule env).run w = (t.scheduleNext env).run w := by
  unfold schedule
  rw [Prog.run_bind, run_isScheduled_of_none h, Prog.Outcome.andThen_ok]
  rfl

theorem run_schedule_of_pending {t : Task} {isAsync : Bool} {w : World} (h : t.Pending w)
    (hq : env.queues t.queue = some isAsync) : (t.schedule env).run w = ⟨.ok t, w, []⟩ := by
  obtain ⟨n, hn, hp⟩ := h
  unfold schedule
  rw [Prog.run_bind, run_isScheduled_of_some hn hq, if_pos hp, Prog.Outcome.andThen_ok]
  rfl

/-- A name whose job no longer waits or runs is forgotten, and the row saved, before the next job
is made. -/
theorem run_schedule_of_lost {t : Task} {n : JobName} {isAsync : Bool} {w : World}
    (hn : t.jobName = some n) (h : ¬ t.Pending w) (hq : env.queues t.queue = some isAsync) :
    (t.schedule env).run w = (t.forgotten.scheduleNext env).run (w.putTask t.forgotten) := by
  have hp : ¬ (w.inRegistry t.queue .scheduled n ∨ w.inRegistry t.queue .queued n ∨
      w.inRegistry t.queue .active n) := fun hp => h ⟨n, hn, hp⟩
  unfold schedule
  rw [Prog.run_bind, run_isScheduled_of_some hn hq, if_neg hp, Prog.Outcome.andThen_ok]
  rfl

/-! ## Saving -/

theorem run_saveCleaned (t : Task) (w : World) :
    (t.saveCleaned env true).run w = ((t.schedule env).run (w.putTask t)).andThen (fun t' => do
      t'.store
      pure t') := by
  unfold saveCleaned store
  rw [Prog.run_bind, Prog.run_write, Prog.Outcome.andThen_ok, if_pos rfl, Prog.run_bind]
  rfl

theorem run_save_clean {t : Task} {scheduleJob : Bool} (w : World) :
    (t.save env true scheduleJob).run w = match t.clean env w.now with
      | .error x => ⟨.error x, w, []⟩
      | .ok t' => (t'.saveCleaned env scheduleJob).run w := by
  unfold save
  rw [if_pos rfl, Prog.run_bind, run_utcnow, Prog.Outcome.andThen_ok]
  cases t.clean env w.now <;> rfl

end DailyScheduler.Task
