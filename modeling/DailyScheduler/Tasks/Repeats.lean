import DailyScheduler.Model.Sample
import DailyScheduler.Queues.Dequeue
import DailyScheduler.Registries.Durable
import DailyScheduler.Scheduling.Pass
import DailyScheduler.Tasks.Inserting

set_option autoImplicit false

/-! # How often a repeatable task runs

`repeat` is counted down by `_schedule_time`, when the next run is scheduled after one has ended. The
first run is scheduled without counting, so a task that is saved with `repeat = N` still has a run
scheduled after its job was started `N` times.

A run of the task is a list of acts: the scheduler passes, the starts and ends of its executions,
the time, and whatever else leaves the task alone. How an execution ends is free.
-/

namespace DailyScheduler.Repeats

open AtomicProg Transfer

/-! ## Runs -/

/-- How the function of a job ends. -/
inductive Ending where
  | success (result : PyValue)
  | failure (excString : String)

/-- The end of the execution of a task's job, after its function: the callback, whose mail to the
admins goes out, and what the worker does then. -/
def finishJob (env : Env) (q : Queue) (job : JobModel) : Ending → Py Unit
  | .success result => do
      Task.successCallback env job
      let (job, _) ← After.get (q.jobHandleSuccess job result job.jobInfoTtl job.successTtl)
      let _ ← job.expire job.successTtl
  | .failure excString => do
      Task.failureCallback env (.ok ()) job
      let _ ← After.get (q.jobHandleFailure env .failed job excString)

inductive Act where
  | tick (d : Nat)
  /-- `enqueue_scheduled_jobs`. -/
  | pass (s : WorkerScheduler)
  /-- A worker dequeues a job and starts it. -/
  | start (queues : List Queue) (timeout : Option Int) (worker : WorkerName) (fuel : Nat)
  | finish (q : Queue) (job : JobModel) (ending : Ending)
  | other (p : Py Unit)

def Act.program (env : Env) : Act → Py Unit
  | .tick d => Prog.write (·.advance d)
  | .pass s => do
      let _ ← s.enqueueScheduledJobs env
  | .start queues timeout worker fuel => Op.startNext env queues timeout worker fuel
  | .finish q job ending => finishJob env q job ending
  | .other p => p

/-- The life of a task: the world, the log, and the job of the task that is being executed. -/
structure Life where
  world : World
  log : List Event
  running : Option JobName

/-- The job that is executed after a start with the events `es`. -/
def Life.startedBy (L : Life) (id : Nat) (es : List Event) : Option JobName :=
  match (L.world.tasks.find? id).bind Task.jobName with
  | some n => if .delivered n ∈ es then some n else L.running
  | none => L.running

/-- What an act does. -/
def step (env : Env) (id : Nat) (L : Life) (a : Act) : Life where
  world := (a.program env).exec L.world
  log := L.log ++ ((a.program env).run L.world).trace
  running := match a with
    | .start .. => L.startedBy id ((a.program env).run L.world).trace
    | .finish .. => none
    | _ => L.running

/-- The execution of the task's job ends after the time it was scheduled for and before the
following occurrence, and the name of the next job is new. -/
structure EndsInTime (id : Nat) (L : Life) (job : JobModel) : Prop where
  ofTask : job.taskType.isSome = true ∧ job.scheduledTaskId = some id
  running : L.running = some job.name
  inTime : ∀ r s i, L.world.tasks.find? id = some r → r.scheduledTime = some s →
    r.intervalSeconds = .ok i → s < L.world.now ∧ L.world.now < s + secs i
  newName : ∀ r, L.world.tasks.find? id = some r →
    L.world.jobExists (r.nextJobId L.world.now) = false

/-- What the program does leaves the row of the task alone, and its job. -/
def LeavesAlone (id : Nat) (w : World) (p : Py Unit) : Prop :=
  (p.exec w).tasks.find? id = w.tasks.find? id ∧
    ∀ r n, w.tasks.find? id = some r → r.jobName = some n →
      (r.Pending w → r.Pending (p.exec w)) ∧ (QueuedJob.Plain n w → QueuedJob.Plain n (p.exec w))

/-- The acts of a run in which each execution ends in time. The scheduler looks after queues with
workers. -/
def Allowed (env : Env) (id : Nat) (L : Life) : Act → Prop
  | .tick _ => True
  | .pass s => ∀ q ∈ s.registries, env.queues q ≠ some false
  | .start .. => True
  | .finish _ job _ => EndsInTime id L job
  | .other p => LeavesAlone id L.world p

/-- How often a job of the task was started. -/
def starts (id : Nat) (log : List Event) : Nat :=
  log.countP fun e => match e with
    | .delivered n => decide (.taskScheduled id n ∈ log)
    | _ => false

/-- The life of the task from then on. -/
def saved (env : Env) (t : Task) (w : World) : Life :=
  ⟨(t.save env true true).exec w, ((t.save env true true).run w).trace, none⟩

/-! ## Counting the starts -/

theorem starts_append_le (id : Nat) (log es : List Event) :
    starts id log ≤ starts id (log ++ es) := by
  unfold starts
  rw [List.countP_append]
  refine le_trans (List.countP_mono_left fun e _ he => ?_) (Nat.le_add_right _ _)
  cases e with
  | delivered n =>
      simp only [decide_eq_true_eq] at he ⊢
      exact List.mem_append_left _ he
  | _ => cases he

/-- A start of a job that was scheduled before counts. -/
theorem starts_append_lt {id : Nat} {log es : List Event} {n : JobName}
    (hn : .taskScheduled id n ∈ log) (hes : .delivered n ∈ es) :
    starts id log + 1 ≤ starts id (log ++ es) := by
  have hold : starts id log ≤ log.countP fun e => match e with
      | .delivered n => decide (.taskScheduled id n ∈ log ++ es)
      | _ => false := by
    refine List.countP_mono_left fun e _ he => ?_
    cases e with
    | delivered m =>
        simp only [decide_eq_true_eq] at he ⊢
        exact List.mem_append_left _ he
    | _ => cases he
  have hnew : 0 < es.countP fun e => match e with
      | .delivered n => decide (.taskScheduled id n ∈ log ++ es)
      | _ => false := by
    refine List.countP_pos_iff.2 ⟨_, hes, ?_⟩
    simp only [decide_eq_true_eq]
    exact List.mem_append_left _ hn
  unfold starts
  rw [List.countP_append]
  unfold starts at hold
  omega

/-! ## The job of the task -/

/-- The task has the row `r` and its job `n` waits or runs, with its record; at least `m` jobs of the
task were started. -/
structure Current (r : Task) (n : JobName) (m : Nat) (c : Config World Event) : Prop where
  row : c.1.tasks.find? r.id = some r
  name : r.jobName = some n
  pending : r.Pending c.1
  plain : QueuedJob.Plain n c.1
  scheduled : .taskScheduled r.id n ∈ c.2
  count : m ≤ starts r.id c.2

section Frames

variable {r : Task} {n : JobName} {m : Nat} {w w' : World} {t es : List Event}

theorem Current.of_frame (h : Current r n m (w, t))
    (hrow : w'.tasks.find? r.id = w.tasks.find? r.id)
    (hpending : r.Pending w → r.Pending w') (hplain : QueuedJob.Plain n w → QueuedJob.Plain n w') :
    Current r n m (w', t ++ es) where
  row := hrow.trans h.row
  name := h.name
  pending := hpending h.pending
  plain := hplain h.plain
  scheduled := List.mem_append_left _ h.scheduled
  count := le_trans h.count (starts_append_le r.id t es)

theorem Current.event (h : Current r n m (w, t)) (e : Event) : Current r n m (w, t ++ [e]) :=
  h.of_frame rfl id id

theorem Current.silent (h : Current r n m (w, t)) (hrow : w'.tasks.find? r.id = w.tasks.find? r.id)
    (hpending : r.Pending w → r.Pending w') (hplain : QueuedJob.Plain n w → QueuedJob.Plain n w') :
    Current r n m (w', t) := by
  have hend : Current r n m (w', t ++ []) := h.of_frame hrow hpending hplain
  rw [List.append_nil] at hend
  exact hend

theorem Current.saveJob (h : Current r n m (w, t)) (j : JobModel) (sa : Bool) :
    Current r n m (w.saveJob j sa, t) :=
  h.silent rfl id (QueuedJob.Spares.saveJob (q := r.queue) w j sa).plain

/-- The commands of an execution of another job. -/
theorem Current.execStep {q : QueueName} {n' : JobName} (hne : n' ≠ n)
    (hs : ExecStep q n' w w' es) (h : Current r n m (w, t)) : Current r n m (w', t ++ es) := by
  have hplain := (QueuedJob.spares_of_execStep (q := r.queue) (n := n) hs).plain
  cases hs with
  | add k s => exact h.of_frame rfl (Task.pending_zadd h.name q k n' s) hplain
  | remove => exact h.of_frame rfl (Task.pending_zrem h.name q .active hne) hplain
  | same => exact h.of_frame rfl id hplain
  | save j sa => exact h.of_frame rfl id hplain
  | persist => exact h.of_frame rfl id hplain
  | result r => exact h.of_frame rfl id hplain
  | deleteResults => exact h.of_frame rfl id hplain
  | saveWorker cfg model sa => exact h.of_frame rfl id hplain
  | expireWorker name d => exact h.of_frame rfl id hplain
  | success => exact h.of_frame rfl id hplain
  | failure => exact h.of_frame rfl id hplain

theorem Current.expireStep {n' : JobName} (hne : n' ≠ n) (hs : ExpireStep n' w w' es)
    (h : Current r n m (w, t)) : Current r n m (w', t ++ es) := by
  have hplain := (QueuedJob.spares_of_expireStep (q := r.queue) (n := n) hs hne).plain
  cases hs with
  | expire d => exact h.of_frame rfl id hplain
  | delete => exact h.of_frame rfl id hplain

end Frames

/-! ## A pass -/

/-- User code that a pass runs on queues without workers leaves the task alone. -/
def UserSpares (env : Env) : Prop := ∀ r n m, UserKeeps env (Current r n m)

section Pass

variable {env : Env} {r : Task} {n : JobName} {m : Nat}

end Pass

/-! ## A start -/

section Start

variable {r : Task} {n : JobName} {m : Nat} {w : World} {t : List Event}

/-- `compact` keeps the names that have a record. -/
theorem Current.compact (h : Current r n m (w, t)) (q : QueueName) :
    Current r n m (compacted q w, t) := by
  refine h.silent rfl (Task.pending_mono h.name fun k hk hin => ⟨k, hk, ?_⟩) id
  unfold DailyScheduler.compacted
  rw [World.inRegistry_iff, World.registry_setRegistry]
  split
  · rename_i hq
    obtain ⟨hqueue, hkind⟩ := hq
    rw [SortedSet.score_filter]
    obtain ⟨s, hs⟩ := Option.isSome_iff_exists.1 hin
    rw [← hqueue, ← hkind, hs]
    simp [h.plain.1.jobExists]
  · exact hin

theorem Current.compactedAll (h : Current r n m (w, t)) (queues : List Queue) :
    Current r n m (queues.foldl (fun w q => DailyScheduler.compacted q.name w) w, t) := by
  induction queues generalizing w with
  | nil => exact h
  | cons q queues ih => exact ih (h.compact q.name)

/-- A name that was popped is taken out of the queue, and nothing else is. -/
theorem Current.popped {w' : World} {q : QueueName} {n' : JobName} (h : Current r n m (w, t))
    (hp : w.zpopmin q .queued = (some n', w')) (hne : ¬ (q = r.queue ∧ n' = n)) :
    Current r n m (w', t) := by
  obtain ⟨z, rfl, -, hscore⟩ := World.zpopmin_some hp
  refine h.silent rfl (Task.pending_mono h.name fun k hk hin => ⟨k, hk, ?_⟩) id
  rw [World.inRegistry_iff, hscore, if_neg fun heq => hne ⟨heq.1.symm, heq.2.2.symm⟩]
  exact hin

/-- What a worker gets from its queues: another job, or none. -/
structure GetsOther (r : Task) (n : JobName) (m : Nat) (t : List Event)
    (o : Prog.Outcome World Event PyError (Option (JobModel × Queue))) : Prop where
  current : Current r n m (o.state, t ++ o.trace)
  notGiven : .delivered n ∉ o.trace
  other : ∀ j q, o.val = .ok (some (j, q)) → j.name ≠ n

/-- The worker gets the job of the task, from its queue or from another one. -/
structure GetsOwn (r : Task) (n : JobName)
    (o : Prog.Outcome World Event PyError (Option (JobModel × Queue))) (j : JobModel) (q : Queue) :
    Prop where
  val : o.val = .ok (some (j, q))
  name : j.name = n
  given : .delivered n ∈ o.trace
  row : o.state.tasks.find? r.id = some r
  plain : QueuedJob.Plain n o.state
  queue : q.name = r.queue ∨ r.Pending o.state

theorem dequeueAny_cases (env : Env) (queues : List Queue) (timeout : Option Int) (fuel : Nat)
    (h : Current r n m (w, t)) :
    GetsOther r n m t ((Queue.dequeueAny env queues timeout fuel).run w) ∨
      ∃ j q, GetsOwn r n ((Queue.dequeueAny env queues timeout fuel).run w) j q := by
  induction fuel generalizing w t with
  | zero =>
      have hcur : Current r n m (w, t ++ []) := h.of_frame rfl id id
      exact .inl ⟨hcur, List.not_mem_nil, fun j q hv => by cases hv⟩
  | succ fuel ih =>
      have hcompact := h.compactedAll queues
      rw [Queue.run_dequeueAny_succ, Queue.run_popAny]
      generalize queues.foldl (fun w q => compacted q.name w) w = w₁ at hcompact ⊢
      by_cases h0 : timeout = some 0
      · rw [if_pos h0]
        exact .inl ⟨hcompact.of_frame rfl id id, List.not_mem_nil, fun j q hv => by cases hv⟩
      rw [if_neg h0]
      rcases hp : w₁.bzpopmin (queues.map Queue.name) with ⟨_ | ⟨key, n'⟩, w'⟩
      · obtain rfl := World.bzpopmin_none hp
        dsimp only
        by_cases ht : timeout = none
        · rw [if_pos ht]
          exact .inl ⟨hcompact.of_frame rfl id id, List.not_mem_nil, fun j q hv => by cases hv⟩
        · rw [if_neg ht]
          exact .inl ⟨hcompact.of_frame rfl id id, List.not_mem_nil, fun j q hv => by cases hv⟩
      · obtain ⟨hkey, hpop⟩ := World.bzpopmin_some hp
        obtain ⟨q, hfind, rfl⟩ : ∃ q, queues.find? (fun q => decide (q.name = key)) = some q ∧
            q.name = key := by
          obtain ⟨q₀, hq₀, hname⟩ := List.mem_map.1 hkey
          have hsome : (queues.find? fun q => decide (q.name = key)).isSome = true :=
            List.find?_isSome.2 ⟨q₀, hq₀, decide_eq_true hname⟩
          obtain ⟨q, hq⟩ := Option.isSome_iff_exists.1 hsome
          have hqname := List.find?_some hq
          exact ⟨q, hq, of_decide_eq_true hqname⟩
        dsimp only
        rw [Prog.Outcome.andThen_ok]
        dsimp only
        rw [hfind]
        dsimp only
        rw [Prog.run_bind, JobModel.run_get, Prog.Outcome.andThen_ok]
        by_cases hn : n' = n
        · -- the popped name is that of the task's job, whose record is complete
          subst hn
          obtain ⟨z, rfl, -, -⟩ := World.zpopmin_some hpop
          have hplain : QueuedJob.Plain n' (w₁.setRegistry q.name .queued z) := hcompact.plain
          cases hj : JobModel.fetch env (w₁.setRegistry q.name .queued z) n' with
          | none => exact absurd hplain.1 (JobModel.fetch_eq_none_iff.1 hj)
          | some j =>
              refine .inr ⟨j, q, rfl, JobModel.name_of_fetch hj, ?_, hcompact.row, hplain, ?_⟩
              · exact List.mem_append_right _ (List.mem_singleton.2 rfl)
              · by_cases hq : q.name = r.queue
                · exact .inl hq
                · exact .inr (hcompact.popped hpop fun hboth => hq hboth.1).pending
        · have hrest : Current r n m (w', t) := hcompact.popped hpop fun hboth => hn hboth.2
          cases hj : JobModel.fetch env w' n' with
          | some j =>
              refine .inl ⟨hrest.of_frame rfl id id, ?_, fun j' q' hv => ?_⟩
              · show Event.delivered n ∉ [Event.popped q.name n', Event.delivered n']
                simpa using Ne.symm hn
              · cases hv
                rw [JobModel.name_of_fetch hj]
                exact hn
          | none =>
              have hlog : Current r n m (w', t ++ [.popped q.name n', .dropped n']) :=
                hrest.of_frame rfl id id
              rcases ih hlog with ⟨hcur, hnot, hother⟩ | ⟨j, q', hown⟩
              · refine .inl ⟨?_, ?_, hother⟩
                · rw [List.append_assoc] at hcur
                  exact hcur
                · have hlist : Event.delivered n ∉ Event.popped q.name n' :: Event.dropped n' ::
                      ((Queue.dequeueAny env queues timeout fuel).run w').trace := by
                    simpa using hnot
                  exact hlist
              · refine .inr ⟨j, q', hown.val, hown.name, ?_, hown.row, hown.plain, hown.queue⟩
                exact List.mem_cons_of_mem _ (List.mem_cons_of_mem _ hown.given)

theorem trace_prepareForExecution (j : JobModel) (worker : WorkerName) (reg : Registry) (w : World) :
    ((j.prepareForExecution worker reg).run w).trace = [] := by
  rw [JobModel.run_prepareForExecution]
  unfold JobModel.save
  split <;> rfl

theorem trace_get {α : Type} (p : Py (After α)) (w : World) :
    ((After.get p).run w).trace = (p.run w).trace := by
  unfold After.get
  rw [Prog.run_bind]
  rcases p.run w with ⟨x | ⟨j, y | a⟩, w', t⟩ <;> simp [Prog.Outcome.andThen]

/-- A start: the job that was dequeued, if there is one, is prepared. -/
theorem run_startNext (env : Env) (queues : List Queue) (timeout : Option Int) (worker : WorkerName)
    (fuel : Nat) (w : World) :
    (Op.startNext env queues timeout worker fuel).exec w
        = (match ((Queue.dequeueAny env queues timeout fuel).run w).val with
          | .ok (some (j, q)) => (j.prepareForExecution worker q.activeJobRegistry).exec
              ((Queue.dequeueAny env queues timeout fuel).run w).state
          | _ => ((Queue.dequeueAny env queues timeout fuel).run w).state) ∧
      ((Op.startNext env queues timeout worker fuel).run w).trace
        = ((Queue.dequeueAny env queues timeout fuel).run w).trace := by
  unfold Op.startNext
  rw [Prog.exec_bind, Prog.run_bind]
  unfold Prog.exec
  rcases (Queue.dequeueAny env queues timeout fuel).run w with ⟨x | ⟨⟨⟩ | ⟨j, q⟩⟩, w', t⟩
  · exact ⟨rfl, rfl⟩
  · exact ⟨rfl, List.append_nil t⟩
  · constructor
    · exact (exec_ignore _ w').trans (After.exec_get _ w')
    · show t ++ ((After.get (j.prepareForExecution worker q.activeJobRegistry) >>= fun _ =>
        (pure () : Py Unit)).run w').trace = t
      rw [trace_ignore, trace_get, trace_prepareForExecution, List.append_nil]

/-- `prepare_for_execution` of another job. -/
theorem Current.prepared {q : Queue} {j : JobModel} (hne : j.name ≠ n) (worker : WorkerName)
    (h : Current r n m (w, t)) :
    Current r n m (((j.prepareForExecution worker q.activeJobRegistry).exec w), t) := by
  have hinv : (j.prepareForExecution worker q.activeJobRegistry).Inv (Current r n m)
      fun _ => True := by
    refine (Prog.Inv.of_steps (prepareForExecution_steps (U := fun _ _ _ => False) rfl worker)
      fun w t w' es hs h => ?_).of_true
    exact h.execStep hne (hs.resolve_right id)
  have hend := (hinv.ends h).1
  unfold Prog.after at hend
  rw [trace_prepareForExecution, List.append_nil] at hend
  exact hend

/-- `prepare_for_execution` of the job of the task: it is active then. -/
theorem Current.started {q : Queue} {j : JobModel} (hj : j.name = n) (worker : WorkerName)
    (hname : r.jobName = some n) (hrow : w.tasks.find? r.id = some r)
    (hplain : QueuedJob.Plain n w) (hqueue : q.name = r.queue ∨ r.Pending w)
    (hscheduled : .taskScheduled r.id n ∈ t) (hcount : m ≤ starts r.id t) :
    Current r n m (((j.prepareForExecution worker q.activeJobRegistry).exec w), t) := by
  rw [JobModel.exec_prepareForExecution]
  have hactive : r.Pending (j.registered q.activeJobRegistry w) := by
    rcases hqueue with hq | hp
    · refine ⟨n, hname, .inr (.inr ?_)⟩
      unfold JobModel.registered
      rw [World.inRegistry_zadd]
      exact .inl ⟨hq.symm, rfl, hj.symm⟩
    · exact Task.pending_zadd hname _ _ _ _ hp
  have hregistered : Current r n m (j.registered q.activeJobRegistry w, t) :=
    ⟨hrow, hname, hactive, hplain, hscheduled, hcount⟩
  rw [JobModel.exec_save]
  split
  · exact hregistered.saveJob _ _
  · exact hregistered

/-- A worker starts another job, or none, or that of the task. -/
theorem start_current (env : Env) (queues : List Queue) (timeout : Option Int) (worker : WorkerName)
    (fuel : Nat) (h : Current r n m (w, t)) {p : Py Unit}
    (hp : p = Act.program env (.start queues timeout worker fuel)) :
    (Current r n m (p.exec w, t ++ (p.run w).trace) ∧ .delivered n ∉ (p.run w).trace) ∨
      (Current r n (m + 1) (p.exec w, t ++ (p.run w).trace) ∧ .delivered n ∈ (p.run w).trace) := by
  have hrun := run_startNext env queues timeout worker fuel w
  subst hp
  rw [show Act.program env (.start queues timeout worker fuel)
    = Op.startNext env queues timeout worker fuel from rfl, hrun.1, hrun.2]
  rcases dequeueAny_cases env queues timeout fuel h with hother | ⟨j, q, hown⟩
  · refine .inl ⟨?_, hother.notGiven⟩
    rcases hv : ((Queue.dequeueAny env queues timeout fuel).run w).val with x | ⟨⟨⟩ | ⟨j, q⟩⟩
    · exact hother.current
    · exact hother.current
    · exact hother.current.prepared (hother.other j q hv) worker
  · refine .inr ⟨?_, hown.given⟩
    rw [hown.val]
    refine Current.started hown.name worker h.name hown.row hown.plain hown.queue ?_ ?_
    · exact List.mem_append_left _ h.scheduled
    · exact le_trans (Nat.add_le_add_right h.count 1) (starts_append_lt h.scheduled hown.given)

end Start

/-! ## The end of an execution -/

/-- The row is that of a repeatable task which the program schedules. -/
structure Fit (env : Env) (r : Task) : Prop where
  type : r.taskType = .repeatable
  enabled : r.enabled = true
  fields : r.cleanFields env = .ok ()
  workers : env.queues r.queue = some true
  timeout : JobModel.timeoutOrDefault env.config r.timeout ≠ 0
  time : ∃ s, r.scheduledTime = some s

/-- The object that a callback saves. -/
def ended (r : Task) (now : Int) : Ending → Task
  | .success _ => { r with
      jobName := none
      successfulRuns := r.successfulRuns + 1
      lastSuccessfulRun := some now }
  | .failure _ => { r with
      jobName := none
      failedRuns := r.failedRuns + 1
      lastFailedRun := some now }

/-- The callback of an ending; the mail to the admins goes out. -/
def callback (env : Env) (job : JobModel) : Ending → Py Unit
  | .success _ => Task.successCallback env job
  | .failure _ => Task.failureCallback env (.ok ()) job

section Finish

variable {env : Env} {r : Task} {n : JobName} {m k : Nat} {w : World} {t : List Event} {s i : Int}

theorem run_callback {job : JobModel} (hof : job.taskType.isSome = true ∧
    job.scheduledTaskId = some r.id) (hrow : w.tasks.find? r.id = some r) (ending : Ending) :
    (callback env job ending).run w
      = (((ended r w.now ending).saveCleaned env true).run w).andThen fun _ => pure () := by
  obtain ⟨ty, hty⟩ := Option.isSome_iff_exists.1 hof.1
  have hget : (Task.getTaskForJob job).run w = ⟨.ok (some r), w, []⟩ := by
    unfold Task.getTaskForJob
    rw [hty, hof.2]
    dsimp only
    rw [Prog.run_read, hrow]
  cases ending with
  | success result =>
      unfold callback Task.successCallback
      rw [Prog.run_bind, hget, Prog.Outcome.andThen_ok]
      dsimp only
      rw [Prog.run_bind, run_utcnow, Prog.Outcome.andThen_ok, Prog.run_bind]
      rfl
  | failure excString =>
      unfold callback Task.failureCallback
      rw [Prog.run_bind, hget, Prog.Outcome.andThen_ok]
      dsimp only
      rw [Prog.run_bind, run_utcnow, Prog.Outcome.andThen_ok, Prog.run_bind]
      rfl

/-- Before the following occurrence one interval has passed. -/
theorem gap_eq_one {now : Int} (hlate : s < now) (hnext : now < s + i) :
    Task.gap now s i = 1 := by
  unfold Task.gap
  have hfloor : -(now - s) / i = -1 := by
    refine (Int.ediv_eq_iff_of_pos (by omega)).2 ⟨by omega, by omega⟩
  omega

/-- The task with its next occurrence. -/
def advanced (x : Task) (s i : Int) (k : Nat) : Task :=
  { x with scheduledTime := some (s + i), «repeat» := some k }

/-- With repeats left, a late task moves on by one interval. -/
theorem next_of_late {x : Task} (hty : x.taskType = .repeatable) (hf : x.cleanFields env = .ok ())
    (hs : x.scheduledTime = some s) (hi : x.intervalSeconds = .ok i) (hk : x.repeat = some (k + 1))
    (hlate : s < w.now) (hnext : w.now < s + secs i) :
    Next env w.now x (advanced x s (secs i) k) := by
  have hgap := gap_eq_one hlate hnext
  have hne : i ≠ 0 := by
    rintro rfl
    unfold secs at hnext
    omega
  have henough : ∀ r, x.repeat = some r → Task.gap w.now s (secs i) ≤ r := by
    intro r hr
    rw [hk] at hr
    cases hr
    rw [hgap]
    omega
  have hfields : (advanced x s (secs i) k).cleanFields env = .ok () := by
    refine fields_of_fewer ?_ hf
    rw [hk]
    exact Nat.le_succ k
  have hcron : (advanced x s (secs i) k).taskType ≠ .cron := by
    show x.taskType ≠ .cron
    rw [hty]
    decide
  refine ⟨?_, ?_, ⟨_, rfl⟩, hfields, fun _ => ⟨_, rfl, fun _ => hnext.le⟩⟩
  · rw [Task.scheduleTime_repeatable_late hty hs hlate hi, if_neg hne,
      Task.advanceSchedule_of_enough henough, hgap, hk]
    have hone : (((k + 1 : Nat) : Int) - 1).toNat = k := by omega
    simp only [Option.map_some, hone, Int.mul_one]
    rfl
  · rw [Task.inThePast_of_some hcron rfl, decide_eq_false (not_lt.2 hnext.le)]

theorem loadable_jobWorld {x x' : Task} {job : JobModel} (hname : job.name = x'.nextName w)
    (hall : job.saveAll = true) (hfree : w.jobExists (x'.nextName w) = false) (s : Int) :
    QueuedJob.Plain (x'.nextName w) (jobWorld w x x' job s) := by
  have hfirst : ((w.putTask x).saveJob job false).loadable (x'.nextName w) :=
    World.loadable_saveJob (.inr ⟨hname.symm, .inr hall⟩)
  have hdeadline : ((w.putTask x).saveJob job false).jobs.deadline (x'.nextName w) = none := by
    cases hd : ((w.putTask x).saveJob job false).jobs.deadline (x'.nextName w) with
    | none => rfl
    | some d =>
        have hold : w.jobs.deadline (x'.nextName w) = some d := World.deadline_of_saveJob hd
        have hmissing : w.jobs.deadline (x'.nextName w) = none := by
          unfold World.jobExists TtlMap.contains at hfree
          unfold TtlMap.deadline
          rw [Option.isSome_eq_false_iff, Option.isNone_iff_eq_none] at hfree
          rw [hfree]
          rfl
        rw [hmissing] at hold
        cases hold
  exact (QueuedJob.Spares.saveJob (q := x'.queue) _ job.saved false).plain ⟨hfirst, hdeadline⟩

/-- The row that the callback leaves when repeats are left. -/
def nextRow (r : Task) (w : World) (s : Int) (i : Int) (k : Nat) (ending : Ending) : Task :=
  (advanced (ended r w.now ending) s i k).withJob (r.nextJobId w.now)

theorem ended_fields (h : Fit env r) (now : Int) (ending : Ending) :
    (ended r now ending).cleanFields env = .ok () := by
  cases ending with
  | success result => exact h.fields
  | failure excString => exact h.fields

theorem Fit.nextRow (h : Fit env r) (hk : r.repeat = some (k + 1)) (ending : Ending) :
    Fit env (nextRow r w s i k ending) := by
  have hfields : (advanced (ended r w.now ending) s i k).cleanFields env = .ok () := by
    refine fields_of_fewer ?_ (ended_fields h w.now ending)
    have hrepeat : (ended r w.now ending).repeat = some (k + 1) := by
      cases ending <;> exact hk
    rw [hrepeat]
    exact Nat.le_succ k
  cases ending with
  | success result =>
      exact ⟨h.type, h.enabled, hfields, h.workers, h.timeout, ⟨_, rfl⟩⟩
  | failure excString =>
      exact ⟨h.type, h.enabled, hfields, h.workers, h.timeout, ⟨_, rfl⟩⟩

/-- After the callback the next job of the task waits. -/
theorem callback_current (h : Current r n m (w, t)) (hfit : Fit env r)
    (hk : r.repeat = some (k + 1)) (hs : r.scheduledTime = some s) (hi : r.intervalSeconds = .ok i)
    (hlate : s < w.now) (hnext : w.now < s + secs i)
    (hfree : w.jobExists (r.nextJobId w.now) = false) {job : JobModel}
    (hof : job.taskType.isSome = true ∧ job.scheduledTaskId = some r.id) (ending : Ending) :
    ∃ w' es, (callback env job ending).run w = ⟨.ok (), w', es⟩ ∧
      Current (nextRow r w s (secs i) k ending) (r.nextJobId w.now) m (w', t ++ es) := by
  let x := ended r w.now ending
  let x' := advanced x s (secs i) k
  have hx : x.taskType = .repeatable ∧ x.scheduledTime = some s ∧ x.intervalSeconds = .ok i ∧
      x.repeat = some (k + 1) ∧ x.jobName = none ∧ x.enabled = true ∧
      x'.nextName w = r.nextJobId w.now ∧ x'.id = r.id ∧ x.JobFree env w := by
    cases ending with
    | success result => exact ⟨hfit.type, hs, hi, hk, rfl, hfit.enabled, rfl, rfl, hfit.timeout, hfree⟩
    | failure excString => exact ⟨hfit.type, hs, hi, hk, rfl, hfit.enabled, rfl, rfl, hfit.timeout, hfree⟩
  obtain ⟨hty, hs', hi', hk', hjob, hen, hname, hid, hjobFree⟩ := hx
  have hfuture := next_of_late hty (ended_fields hfit w.now ending) hs' hi' hk' hlate hnext
  obtain ⟨j, s', hjname, hall, hrun⟩ := saveCleaned_next hjob hen hfuture hjobFree
  have hplain := loadable_jobWorld (x := x) hjname hall (by rw [hname]; exact hfree) s'
  rw [hname] at hrun hplain
  refine ⟨jobWorld w x x' j s', [.created (r.nextJobId w.now),
    .taskScheduled x'.id (r.nextJobId w.now)], ?_, ?_⟩
  · rw [run_callback hof h.row, hrun]
    rfl
  · have hrowid : (nextRow r w s (secs i) k ending).id = r.id := hid
    refine ⟨?_, rfl, ⟨_, rfl, .inl ?_⟩, hplain, ?_, ?_⟩
    · have hstored := find?_putTask (x'.withJob (x'.nextName w))
        ((((w.putTask x).saveJob j false).saveJob j.saved false).zadd x'.queue .scheduled
          (x'.nextName w) s')
      rw [hname] at hstored
      unfold jobWorld
      rw [hname]
      exact hstored
    · unfold jobWorld
      rw [hname]
      show ((((w.putTask x).saveJob j false).saveJob j.saved false).zadd x'.queue .scheduled
        (r.nextJobId w.now) s').inRegistry x'.queue .scheduled (r.nextJobId w.now)
      rw [World.inRegistry_zadd]
      exact .inl ⟨rfl, rfl, rfl⟩
    · rw [hrowid, hid]
      simp
    · rw [hrowid]
      exact le_trans h.count (starts_append_le r.id t _)

/-- The end of the execution of another job, after its callback. -/
theorem afterCallback_inv {q : Queue} {job : JobModel} (hne : job.name ≠ n) (ending : Ending) :
    (match ending with
      | .success result => do
          let (job, _) ← After.get (q.jobHandleSuccess job result job.jobInfoTtl job.successTtl)
          let _ ← job.expire job.successTtl
      | .failure excString => do
          let _ ← After.get (q.jobHandleFailure env .failed job excString) : Py Unit).Inv
      (Current r n m) fun _ => True := by
  cases ending with
  | success result =>
      have hsteps : (q.jobHandleSuccess job result job.jobInfoTtl job.successTtl).Steps
          (ExecOr q.name job.name fun _ _ _ => False) (Named job.name) :=
        jobHandleSuccess_steps rfl result _ _
      have hhandle := After.get_steps (Q := fun r => r.1.name = job.name) hsteps fun _ _ h => h
      have hhandled := Prog.Inv.of_steps (I := Current r n m) hhandle fun w t w' es hs h =>
        h.execStep hne (hs.resolve_right id)
      refine hhandled.bind fun p hp => ?_
      obtain ⟨job', u⟩ := p
      have hname : job'.name = job.name := hp
      have hexpire := Prog.Inv.of_steps (I := Current r n m)
        (expire_steps (j := job') rfl job'.successTtl) fun w t w' es hs h =>
          h.expireStep (by rw [hname]; exact hne) hs
      exact hexpire.bind fun _ _ => Prog.Inv.ret trivial
  | failure excString =>
      have hsteps : (q.jobHandleFailure env .failed job excString).Steps
          (ExecOr q.name job.name fun _ _ _ => False) (Named job.name) :=
        jobHandleFailure_steps rfl .failed excString
      have hhandle := After.get_steps (Q := fun r => r.1.name = job.name) hsteps fun _ _ h => h
      have hhandled := Prog.Inv.of_steps (I := Current r n m) hhandle fun w t w' es hs h =>
        h.execStep hne (hs.resolve_right id)
      exact hhandled.bind fun _ _ => Prog.Inv.ret trivial

theorem finishJob_eq (q : Queue) (job : JobModel) (ending : Ending) :
    finishJob env q job ending = callback env job ending >>= fun _ =>
      (match ending with
      | .success result => do
          let (job, _) ← After.get (q.jobHandleSuccess job result job.jobInfoTtl job.successTtl)
          let _ ← job.expire job.successTtl
      | .failure excString => do
          let _ ← After.get (q.jobHandleFailure env .failed job excString)) := by
  cases ending <;> rfl

/-- After the execution the next job of the task waits, as long as repeats are left. -/
theorem finish_current {L : Life} (h : Current r n m (L.world, L.log)) (hfit : Fit env r)
    (hk : r.repeat = some (k + 1)) {q : Queue} {job : JobModel} (hends : EndsInTime r.id L job)
    (hjob : job.name = n) (ending : Ending) :
    ∃ r' n', r'.id = r.id ∧ Fit env r' ∧ r'.repeat = some k ∧
      Current r' n' m ((finishJob env q job ending).after (L.world, L.log)) := by
  obtain ⟨s, hs⟩ := hfit.time
  obtain ⟨i, hi⟩ := interval_of_fields hfit.fields hfit.type
  obtain ⟨hlate, hnext⟩ := hends.inTime r s i h.row hs hi
  have hfree := hends.newName r h.row
  obtain ⟨w', es, hrun, hcur⟩ := callback_current h hfit hk hs hi hlate hnext hfree hends.ofTask ending
  refine ⟨nextRow r L.world s (secs i) k ending, r.nextJobId L.world.now, ?_, hfit.nextRow hk ending,
    ?_, ?_⟩
  · cases ending <;> rfl
  · cases ending <;> rfl
  · have hne : job.name ≠ r.nextJobId L.world.now := by
      intro heq
      have hexists := h.plain.1.jobExists
      rw [← hjob, heq, hfree] at hexists
      cases hexists
    have hval : ((callback env job ending).run L.world).val = .ok () := by
      rw [hrun]
    have hafter : (callback env job ending).after (L.world, L.log) = (w', L.log ++ es) :=
      Prog.after_of_run hrun
    rw [finishJob_eq, Prog.after_bind hval, hafter]
    exact ((afterCallback_inv hne ending).ends hcur).1

end Finish

/-! ## A run -/

/-- The job of the task waits, or it runs, and the starts so far and the repeats left make up more
than `N`. -/
structure Left (N : Nat) (L : Life) (r : Task) (n : JobName) (m k : Nat) : Prop where
  current : Current r n m (L.world, L.log)
  repeats : r.repeat = some k
  enough : (L.running = none ∧ N ≤ k + m) ∨ (L.running = some n ∧ N + 1 ≤ k + m)

/-- More than `N` jobs of the task were started, or there is one left. -/
def Alive (env : Env) (N id : Nat) (L : Life) : Prop :=
  N < starts id L.log ∨ ∃ r n m k, r.id = id ∧ Fit env r ∧ Left N L r n m k

section Run

variable {env : Env} {N id : Nat} {L : Life}

/-- An act that leaves the task as it is. -/
theorem Left.kept {r : Task} {n : JobName} {m k : Nat} {a : Act} (h : Left N L r n m k)
    (hcur : Current r n m ((Act.program env a).after (L.world, L.log)))
    (hrunning : (step env id L a).running = L.running) :
    Left N (step env id L a) r n m k :=
  ⟨hcur, h.repeats, by rw [hrunning]; exact h.enough⟩

theorem Left.started {r : Task} {n : JobName} {m k : Nat} (h : Left N L r n m k) (hid : r.id = id)
    (queues : List Queue) (timeout : Option Int) (worker : WorkerName) (fuel : Nat) :
    ∃ m', Left N (step env id L (.start queues timeout worker fuel)) r n m' k := by
  let a : Act := .start queues timeout worker fuel
  have hname : (L.world.tasks.find? id).bind Task.jobName = some n := by
    rw [← hid, h.current.row]
    exact h.current.name
  have hrunning : (step env id L a).running
      = if .delivered n ∈ ((Act.program env a).run L.world).trace then some n else L.running := by
    show L.startedBy id _ = _
    unfold Life.startedBy
    rw [hname]
  rcases start_current env queues timeout worker fuel h.current rfl with ⟨hcur, hnot⟩ | ⟨hcur, hin⟩
  · rw [if_neg hnot] at hrunning
    exact ⟨m, h.kept hcur hrunning⟩
  · rw [if_pos hin] at hrunning
    refine ⟨m + 1, hcur, h.repeats, .inr ⟨hrunning, ?_⟩⟩
    rcases h.enough with ⟨-, henough⟩ | ⟨-, henough⟩ <;> omega

theorem Left.finished {r : Task} {n : JobName} {m k : Nat} (h : Left N L r n m k)
    (hid : r.id = id) (hfit : Fit env r) {q : Queue} {job : JobModel} (ending : Ending)
    (hends : EndsInTime id L job) : Alive env N id (step env id L (.finish q job ending)) := by
  have hjob : job.name = n ∧ N + 1 ≤ k + m := by
    rcases h.enough with ⟨hnone, -⟩ | ⟨hsome, henough⟩
    · rw [hends.running] at hnone
      cases hnone
    · rw [hends.running] at hsome
      exact ⟨Option.some_inj.1 hsome, henough⟩
  obtain ⟨hname, henough⟩ := hjob
  cases k with
  | zero =>
      -- the last repeat was counted down before this execution was scheduled
      have hcount : m ≤ starts id L.log := by
        rw [← hid]
        exact h.current.count
      have hmono := starts_append_le id L.log
        ((Act.program env (.finish q job ending)).run L.world).trace
      refine .inl ?_
      show N < starts id (L.log ++ _)
      omega
  | succ k =>
      subst hid
      obtain ⟨r', n', hid', hfit', hk', hcur'⟩ :=
        finish_current h.current hfit h.repeats (q := q) hends hname ending
      exact .inr ⟨r', n', m, k, hid', hfit', hcur', hk', .inl ⟨rfl, by omega⟩⟩

end Run

/-! ## A task with one repeat -/

/-- A task that repeats once, a minute after its first run at the fifth second. -/
def sampleTask : Task :=
  { Sample.onceTask 5000000 with
    taskType := .repeatable
    interval := some 60
    intervalUnit := some .seconds
    «repeat» := some 1 }

def sampleScheduler : WorkerScheduler :=
  { WorkerScheduler.new ["q"] 1 10 with locks := ["q"], registries := ["q"] }

def sampleJob (n : JobName) : JobModel :=
  { Sample.job n with taskType := some .repeatable, scheduledTaskId := some 7 }

/-- The job `n` is enqueued, started, and ends without an error. -/
def sampleRound (n : JobName) : List Act :=
  [.pass sampleScheduler, .start [Sample.queue] none "w" 2, .tick 1,
    .finish Sample.queue (sampleJob n) (.success .none)]

def sampleActs : List Act :=
  .tick 10000000 :: sampleRound "q:7:19700101000000000000" ++
    .tick 60000000 :: sampleRound "q:7:19700101000010000001"

def sampleSaved : Life := saved Sample.env sampleTask (World.init 0)

def sampleEnd : Life := Run.last (step Sample.env 7) sampleSaved sampleActs

theorem sample_workers : ∀ q ∈ sampleScheduler.registries, Sample.env.queues q ≠ some false := by
  decide

end DailyScheduler.Repeats
