import DailyScheduler.Model.Effects
import DailyScheduler.Model.Sample
import DailyScheduler.Model.WorkerLoop

set_option autoImplicit false

/-! # Killing a job that runs too long

The worker that forked a process for a job looks at it once in every monitoring interval. It computes the
working time from its own copy of the job, which it loaded when it dequeued it: the process that executes
the job assigns `started_at` to another copy, and `enqueue_job` has set it to `None` in the record.
-/

namespace DailyScheduler.Monitoring

open AtomicProg

/-- What `execute_job` does before the monitoring. -/
def forkJobExecution (env : Env) (w : Worker) (childPid : Int) : Py Worker := do
  let w ← w.setState .busy
  w.rememberProcess env childPid

/-- One round of the loop of `monitor_job_execution_process` while the process is alive: the interval is
over, or `waitpid` was interrupted. -/
inductive Round where
  | tick (s : World)
  | interrupted (s : World)

/-- The ticks that the loop passes, by the state of the world at each of them. -/
def passed (env : Env) (job : JobModel) : Worker → List Round → List World
  | _, [] => []
  | w, .tick s :: rounds =>
      match ((w.monitoringTick env job).run s).val with
      | .ok (w', false) => s :: passed env job w' rounds
      | _ => []
  | w, .interrupted s :: rounds =>
      match ((w.heartbeat env 0).run s).val with
      | .ok w' => passed env job w' rounds
      | .error _ => []

variable {env : Env} {job : JobModel} {w w' : Worker}

/-! ## The worker's copies -/

theorem run_heartbeat (env : Env) (w : Worker) (timeout : Int) (s : World) :
    ∃ w', ((w.heartbeat env timeout).run s).val = .ok w'
      ∧ w'.model.currentJobWorkingTime = w.model.currentJobWorkingTime :=
  ⟨_, rfl, rfl⟩

/-- The time that the kill condition is computed from. -/
def workingTime (job : JobModel) (w : Worker) (s : World) : Int :=
  match job.startedAt with
  | none => w.model.currentJobWorkingTime
  | some t => s.now - t

/-- One tick: the copy takes over the working time, and the process is killed when it is too long. -/
theorem run_monitoringTick (env : Env) (job : JobModel) (w : Worker) (s : World) :
    ∃ w', ((w.monitoringTick env job).run s).val
        = .ok (w', decide (job.timeout ≠ -1 ∧ workingTime job w s > secs (job.timeout + 60)))
      ∧ w'.model.currentJobWorkingTime = workingTime job w s := by
  unfold workingTime Worker.monitoringTick
  cases job.startedAt with
  | none => exact ⟨_, rfl, rfl⟩
  | some t => exact ⟨_, rfl, rfl⟩

/-- The fork leaves the working time of the worker's copy alone. -/
theorem workingTime_forkJobExecution {pid : Int} {s : World}
    (h : ((forkJobExecution env w pid).run s).val = .ok w') :
    w'.model.currentJobWorkingTime = w.model.currentJobWorkingTime := by
  cases h
  rfl

/-- A tick is passed when the working time is not too long. -/
theorem passed_tick (env : Env) (w : Worker) (s : World) (rounds : List Round)
    (hT : 0 < job.timeout) :
    ∃ w', w'.model.currentJobWorkingTime = workingTime job w s
      ∧ passed env job w (.tick s :: rounds)
        = if workingTime job w s > secs (job.timeout + 60) then []
          else s :: passed env job w' rounds := by
  obtain ⟨w', hrun, hw'⟩ := run_monitoringTick env job w s
  refine ⟨w', hw', ?_⟩
  have hinfinite : job.timeout ≠ -1 := by omega
  rw [passed, hrun]
  by_cases hlong : workingTime job w s > secs (job.timeout + 60)
  · rw [if_pos hlong]
    simp [hinfinite, hlong]
  · rw [if_neg hlong]
    simp [hinfinite, hlong]

theorem passed_interrupted (env : Env) (job : JobModel) (w : Worker) (s : World)
    (rounds : List Round) :
    ∃ w', w'.model.currentJobWorkingTime = w.model.currentJobWorkingTime
      ∧ passed env job w (.interrupted s :: rounds) = passed env job w' rounds := by
  obtain ⟨w', hrun, hw'⟩ := run_heartbeat env w 0 s
  refine ⟨w', hw', ?_⟩
  rw [passed, hrun]

/-! ## Runs of the loop -/

/-- With the time of the start in its copy of the job, the worker passes no tick that is too late. -/
theorem passed_of_started (hT : 0 < job.timeout) {t : Int} (hstarted : job.startedAt = some t)
    (rounds : List Round) (w : Worker) :
    ∀ s ∈ passed env job w rounds, s.now ≤ t + secs (job.timeout + 60) := by
  induction rounds generalizing w with
  | nil => simp [passed]
  | cons round rounds ih =>
      cases round with
      | interrupted s =>
          obtain ⟨w', -, hpassed⟩ := passed_interrupted env job w s rounds
          rw [hpassed]
          exact ih w'
      | tick s =>
          obtain ⟨w', -, hpassed⟩ := passed_tick env w s rounds hT
          rw [hpassed]
          have htime : workingTime job w s = s.now - t := by rw [workingTime, hstarted]
          split
          · simp
          · rename_i hshort
            intro s' hs'
            rcases List.mem_cons.1 hs' with rfl | hs'
            · omega
            · exact ih w' s' hs'

/-- Without it, the working time stays what it was, and so does the decision. -/
theorem passed_of_not_started (hT : 0 < job.timeout) (hstarted : job.startedAt = none)
    (rounds : List Round) (w : Worker)
    (hlong : secs (job.timeout + 60) < w.model.currentJobWorkingTime) :
    passed env job w rounds = [] := by
  induction rounds generalizing w with
  | nil => rfl
  | cons round rounds ih =>
      cases round with
      | interrupted s =>
          obtain ⟨w', hw', hpassed⟩ := passed_interrupted env job w s rounds
          rw [hpassed]
          exact ih w' (by omega)
      | tick s =>
          obtain ⟨w', -, hpassed⟩ := passed_tick env w s rounds hT
          have htime : workingTime job w s = w.model.currentJobWorkingTime := by
            rw [workingTime, hstarted]
          rw [hpassed, if_pos (by omega)]

/-- The ticks among the rounds. -/
def ticks (rounds : List Round) : List World :=
  rounds.filterMap fun
    | .tick s => some s
    | .interrupted _ => none

/-- Without it, and with no working time left over, no tick ever kills the process. -/
theorem passed_eq_ticks (hT : 0 < job.timeout) (hstarted : job.startedAt = none)
    (rounds : List Round) (w : Worker)
    (hshort : w.model.currentJobWorkingTime ≤ secs (job.timeout + 60)) :
    passed env job w rounds = ticks rounds := by
  induction rounds generalizing w with
  | nil => rfl
  | cons round rounds ih =>
      cases round with
      | interrupted s =>
          obtain ⟨w', hw', hpassed⟩ := passed_interrupted env job w s rounds
          rw [hpassed, ih w' (by omega)]
          rfl
      | tick s =>
          obtain ⟨w', hw', hpassed⟩ := passed_tick env w s rounds hT
          have htime : workingTime job w s = w.model.currentJobWorkingTime := by
            rw [workingTime, hstarted]
          rw [hpassed, if_neg (by omega), ih w' (by omega)]
          rfl

/-- The loop passes no tick that is more than 60 seconds later than the timeout. -/
def KillsInTime (env : Env) (job : JobModel) (w : Worker) (start : Int) : Prop :=
  ∀ rounds, ∀ s ∈ passed env job w rounds, s.now ≤ start + secs (job.timeout + 60)

/-- Whether the kill condition can tell how long the job runs: by a `started_at` that the worker knows,
or because it takes the job for one that has run too long already. -/
def Measured (job : JobModel) (w : Worker) (start : Int) : Option Int → Prop
  | some t => t ≤ start
  | none => secs (job.timeout + 60) < w.model.currentJobWorkingTime

theorem passed_at (hT : 0 < job.timeout) {s : World}
    (h : workingTime job w s ≤ secs (job.timeout + 60)) : passed env job w [.tick s] = [s] := by
  obtain ⟨w', -, hpassed⟩ := passed_tick env w s [] hT
  rw [hpassed, if_neg (by omega)]
  rfl

/-- What decides is the `started_at` of the record that the worker loaded. -/
theorem killsInTime_iff (hT : 0 < job.timeout) (start : Int) :
    KillsInTime env job w start ↔ Measured job w start job.startedAt := by
  cases hstarted : job.startedAt with
  | some t =>
      show _ ↔ t ≤ start
      constructor
      · intro h
        have hpassed : passed env job w [.tick (World.init (t + secs (job.timeout + 60)))]
            = [World.init (t + secs (job.timeout + 60))] := by
          refine passed_at hT ?_
          rw [workingTime, hstarted]
          show t + secs (job.timeout + 60) - t ≤ _
          omega
        have htick := h [.tick (World.init (t + secs (job.timeout + 60)))] _
          (by rw [hpassed]; exact List.mem_singleton_self _)
        change t + secs (job.timeout + 60) ≤ start + secs (job.timeout + 60) at htick
        omega
      · intro hle rounds s hs
        have hbound := passed_of_started hT hstarted rounds w s hs
        omega
  | none =>
      show _ ↔ secs (job.timeout + 60) < w.model.currentJobWorkingTime
      constructor
      · intro h
        by_contra hshort
        have hpassed : passed env job w [.tick (World.init (start + secs (job.timeout + 60) + 1))]
            = [World.init (start + secs (job.timeout + 60) + 1)] := by
          refine passed_at hT ?_
          rw [workingTime, hstarted]
          exact Int.not_lt.1 hshort
        have htick := h [.tick (World.init (start + secs (job.timeout + 60) + 1))] _
          (by rw [hpassed]; exact List.mem_singleton_self _)
        change start + secs (job.timeout + 60) + 1 ≤ start + secs (job.timeout + 60) at htick
        omega
      · intro hlong rounds s hs
        rw [passed_of_not_started hT hstarted rounds w hlong] at hs
        cases hs

/-! ## Jobs that come out of a queue -/

/-- The `started_at` that a loaded job has. -/
theorem startedAt_of_fetch {n : JobName} {s : World} (h : JobModel.fetch env s n = some job) :
    job.startedAt = s.storedField n .startedAt := by
  obtain ⟨v, hv, hjob⟩ := Option.bind_eq_some_iff.1 h
  rw [World.storedField, hv, Option.bind_some]
  unfold JobModel.deserialize at hjob
  simp only [Option.bind_eq_bind, Option.bind_eq_some_iff] at hjob
  obtain ⟨_, -, _, -, _, -, _, -, _, -, _, -, _, -, _, -, _, -, hjob⟩ := hjob
  cases hjob
  rfl

/-- `enqueue_job` leaves none in the record. -/
theorem startedAt_enqueueJob (env : Env) {q : Queue} (hasync : q.isAsync = true) {j : JobModel}
    (hser : j.serializable = true) (atFront : Bool) (s : World) :
    ((q.enqueueJob env j atFront).exec s).storedField j.name .startedAt = none := by
  rw [Prog.exec_eq_of_run (Queue.run_enqueueJob env hasync hser atFront s)]
  have hwritten : (Queue.enqueuedModel j s.now).written false .startedAt = true := by
    simp [JobModel.written, Queue.enqueuedModel, JobModel.setStartedAt, JobModel.setEndedAt,
      JobModel.setStatus, JobModel.setEnqueuedAt]
  have hsaved : (s.saveJob (Queue.enqueuedModel j s.now) false).storedField j.name .startedAt = none := by
    rw [World.storedField_saveJob, if_pos ⟨rfl, hwritten⟩]
    rfl
  exact hsaved

/-- For every job with a timeout that a worker loaded when it dequeued it, and for whose execution it
forked: the worker kills in time exactly if the record had a `started_at` then, of an execution before
this one, or the worker's own working time was too long already. -/
theorem kills_in_time_iff {n : JobName} {s s' : World} {pid : Int} (hT : 0 < job.timeout)
    (hload : JobModel.fetch env s n = some job)
    (hfork : ((forkJobExecution env w pid).run s').val = .ok w') (start : Int) :
    KillsInTime env job w' start ↔ Measured job w start (s.storedField n .startedAt) := by
  rw [killsInTime_iff hT, startedAt_of_fetch hload]
  cases s.storedField n .startedAt with
  | some t => exact Iff.rfl
  | none =>
      show _ < w'.model.currentJobWorkingTime ↔ _
      rw [workingTime_forkJobExecution hfork]
      exact Iff.rfl

/-! ## A run -/

/-- A queue with one job, enqueued at time 0. -/
def sampleEnqueued : World :=
  (Sample.queue.enqueueJob Sample.env (Sample.job "a") false).exec (World.init 0)

/-- The job as another worker would have it that started it at time 0. -/
def sampleStarted : World :=
  sampleEnqueued.saveJob ((Sample.job "a").setStartedAt (some 0)) true

theorem sample_kills_in_time :
    ∃ job w', JobModel.fetch Sample.env sampleStarted "a" = some job
      ∧ KillsInTime Sample.env job w' 0 := by
  have hload : (JobModel.fetch Sample.env sampleStarted "a").isSome = true := by decide +kernel
  obtain ⟨job, hjob⟩ := Option.isSome_iff_exists.1 hload
  have htimeout : (JobModel.fetch Sample.env sampleStarted "a").map JobModel.timeout = some 300 := by
    decide +kernel
  have hstarted : sampleStarted.storedField "a" .startedAt = some 0 := by decide +kernel
  rw [hjob] at htimeout
  have hT : 0 < job.timeout := by
    rw [Option.some.inj htimeout]
    decide
  have hfork : ∃ w', ((forkJobExecution Sample.env (Sample.worker "w") 2).run sampleStarted).val
      = .ok w' := ⟨_, rfl⟩
  obtain ⟨w', hw'⟩ := hfork
  refine ⟨job, w', hjob, (kills_in_time_iff hT hjob hw' 0).2 ?_⟩
  rw [hstarted]
  exact Int.le_refl 0

/-- The worker dequeues the job, forks and looks at the process 400 seconds after the start of the job,
whose timeout is 300 seconds: it goes on waiting. -/
theorem sample_not_killed :
    (((Queue.dequeueAny Sample.env [Sample.queue] none 1).run sampleEnqueued).val.toOption.join.map
      fun dequeued =>
        (dequeued.1.timeout,
          ((forkJobExecution Sample.env (Sample.worker "w") 2).run sampleEnqueued).val.toOption.map
            fun w => (passed Sample.env dequeued.1 w [.tick (sampleEnqueued.advance 400000000)]).map
              World.now))
      = some (300, some [400000000]) ∧ 0 + secs (300 + 60) < 400000000 := by
  decide +kernel

end DailyScheduler.Monitoring
