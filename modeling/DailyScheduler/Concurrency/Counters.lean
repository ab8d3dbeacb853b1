import DailyScheduler.Execution.Steps
import DailyScheduler.Lib.Snapshots
import DailyScheduler.Model.Scheduler
import DailyScheduler.Model.TaskAdmin
import DailyScheduler.Tasks.Save
import Mathlib.Data.Set.Card

set_option autoImplicit false

/-! # The rows of tasks under concurrent operations

`_reschedule_tasks`, the callbacks of the jobs and the action that disables tasks load rows, and save
whole rows from what they have loaded, each more than once. For every interleaving: as long as no
operation saves a row that another has changed since the operation began, the counters of a task
count its callbacks, and a disabled task stays disabled.
-/

namespace DailyScheduler.Counters

open AtomicProg

/-! ## The parties -/

/-- What may run. A failure callback whose mail to the admins cannot be sent raises before its first
write, so it is none of the operations. -/
inductive Op where
  | reschedule
  | success (job : JobModel)
  | failure (job : JobModel)
  | disable (ids : List Nat)

def Op.program (env : Env) : Op → Py Unit
  | .reschedule => rescheduleTasks env
  | .success job => Task.successCallback env job
  | .failure job => Task.failureCallback env (.ok ()) job
  | .disable ids => TaskAdmin.disableSelected env ids

def pool {ι : Type} (env : Env) (ops : ι → Op) (w : World) : Pool ι World Event PyError Unit where
  threads := fun i => (ops i).program env
  state := w
  log := []

/-- The id of the task of a job. -/
def taskId (job : JobModel) : Option Nat :=
  match job.taskType with
  | some _ => job.scheduledTaskId
  | none => none

/-- A success callback for the task. -/
def Op.succeeds (id : Nat) : Op → Bool
  | .success job => taskId job = some id
  | _ => false

/-- A failure callback for the task. -/
def Op.fails (id : Nat) : Op → Bool
  | .failure job => taskId job = some id
  | _ => false

/-! ## Rows -/

/-- A row without the fields that scheduling sets. -/
def core (t : Task) : Task :=
  { t with
    jobName := none, lastSuccessfulRun := none, lastFailedRun := none, scheduledTime := none,
    «repeat» := none }

/-- The row of an id. -/
def row (id : Nat) (w : World) : Option Task := (w.tasks.find? id).map core

theorem row_putTask (x : Task) (w : World) (id : Nat) :
    row id (w.putTask x) = if id = x.id then some (core x) else row id w := by
  unfold row World.putTask
  rw [TaskTable.find?_put]
  split <;> rfl

/-- Whether the operation saves the row with a change of its own. -/
def Op.concerns (id : Nat) : Op → Bool
  | .reschedule => false
  | .success job => taskId job = some id
  | .failure job => taskId job = some id
  | .disable ids => id ∈ ids

/-- The change. -/
def Op.change : Op → Task → Task
  | .reschedule, t => t
  | .success _, t => { t with successfulRuns := t.successfulRuns + 1 }
  | .failure _, t => { t with failedRuns := t.failedRuns + 1 }
  | .disable _, t => { t with enabled := false }

/-- What the operation makes of a row. -/
def Op.update (id : Nat) (op : Op) (c : Option Task) : Option Task :=
  if op.concerns id then c.map op.change else c

/-- A job of the task is not executed at once when the task is saved: only a cron task without
`cron_string` gets a job without a time, unless `USE_TZ` is on, and only a queue without workers
executes it. -/
def Waits (env : Env) (t : Task) : Prop :=
  t.taskType = .cron → t.cronString = none → env.useTz = true ∨ env.queues t.queue ≠ some false

/-- All rows are of such tasks. -/
def Waiting (env : Env) (w : World) : Prop := ∀ id t, row id w = some t → Waits env t

theorem Op.waits_change {env : Env} {t : Task} (op : Op) (h : Waits env t) :
    Waits env (op.change t) := by
  cases op <;> exact h

theorem Op.waits_update {env : Env} {id : Nat} (op : Op) {c : Option Task}
    (h : ∀ t, c = some t → Waits env t) : ∀ t, op.update id c = some t → Waits env t := by
  intro t ht
  unfold Op.update at ht
  split at ht
  · obtain ⟨t', ht', rfl⟩ := Option.map_eq_some_iff.1 ht
    exact op.waits_change (h t' ht')
  · exact h t ht

/-! ## What the functions do to the rows -/

section Steps

variable {env : Env} {t : Task}

/-- The rows stay. -/
def SameTasks (w w' : World) (_ : List Event) : Prop := w'.tasks = w.tasks

/-- Rows stay, or the row of the task becomes `c`. -/
def Puts (c : Task) (w w' : World) (_ : List Event) : Prop :=
  ∀ id, row id w' = row id w ∨ (id = c.id ∧ row id w' = some c)

theorem SameTasks.row {w w' : World} (h : w'.tasks = w.tasks) (id : Nat) : row id w' = row id w := by
  unfold Counters.row
  rw [h]

theorem SameTasks.puts {α : Type} {p : Py α} {Q : α → Prop} (h : p.Steps SameTasks Q) (c : Task) :
    p.Steps (Puts c) Q :=
  h.mono (fun _ _ _ hs _ => .inl (SameTasks.row hs _)) fun _ ha => ha

theorem store_steps {t c : Task} (h : core t = c) : t.store.Steps (Puts c) fun _ => True := by
  subst h
  refine Prog.Steps.write fun w id => ?_
  rw [row_putTask]
  by_cases hid : id = t.id
  · rw [if_pos hid]
    exact .inr ⟨hid, rfl⟩
  · rw [if_neg hid]
    exact .inl rfl

theorem read_same {β : Type} (g : World → β) : (Prog.read g : Py β).Steps SameTasks fun _ => True :=
  fun _ => ⟨rfl, trivial⟩

theorem write_same {f : World → World} (h : ∀ w, (f w).tasks = w.tasks) :
    (Prog.write f : Py Unit).Steps SameTasks fun _ => True :=
  Prog.Steps.write h

theorem save_same (j : JobModel) (sa : Bool) : (j.save sa).Steps SameTasks fun _ => True := by
  refine Prog.Steps.ite (fun _ => ?_) fun _ => trivial
  exact (write_same fun w => rfl).bind fun _ _ => trivial

theorem get_save_same (j : JobModel) (sa : Bool) :
    (After.get (j.save sa)).Steps SameTasks fun _ => True :=
  After.get_steps (save_same j sa) fun _ _ _ => trivial

theorem create_same (a : JobArgs) (queueName : QueueName) (status : JobStatus) :
    (JobModel.create env a queueName status).Steps SameTasks fun _ => True := by
  refine Prog.Steps.ite (fun _ => trivial) fun _ => ?_
  have hpick : (JobModel.pickName a.name queueName a.scheduledTaskId).Steps SameTasks
      fun _ => True := by
    unfold JobModel.pickName
    cases a.name with
    | none => exact (read_same _).bind fun _ _ => trivial
    | some n => exact (read_same _).bind fun _ _ => Prog.Steps.ite (fun _ => trivial) fun _ => trivial
  refine hpick.bind fun name _ => (read_same _).bind fun now _ => ?_
  refine (get_save_same _ _).bind fun r _ => ?_
  obtain ⟨j, -⟩ := r
  exact (Prog.Steps.emit fun w => rfl).bind fun _ _ => trivial

theorem enqueueScore_same (q : Queue) (atFront : Bool) :
    (q.enqueueScore atFront).Steps SameTasks fun _ => True := by
  refine Prog.Steps.ite (fun _ => read_same _) fun _ => ?_
  have hlast : q.queuedJobRegistry.getLastTimestamp.Steps SameTasks fun _ => True := by
    refine Prog.Steps.bind (Q := fun _ => True) ?_ fun _ _ => trivial
    exact Prog.Steps.bind (Q := fun _ => True) trivial fun _ _ => read_same _
  refine hlast.bind fun last _ => ?_
  cases last with
  | none => exact read_same _
  | some s => exact Prog.Steps.ite (fun _ => read_same _) fun _ => trivial

/-- A job that is not executed at once. -/
theorem createAndEnqueueJob_same (q : Queue) (a : JobArgs) (when' : Queue.When) (atFront : Bool)
    (h : when' = .none → q.isAsync = true) :
    (q.createAndEnqueueJob env a when' atFront).Steps SameTasks fun _ => True := by
  refine (create_same a q.name _).bind fun job _ => ?_
  cases when' with
  | none =>
      refine (read_same _).bind fun now _ => (get_save_same _ _).bind fun r _ => ?_
      obtain ⟨job, -⟩ := r
      dsimp only
      rw [if_pos (h rfl)]
      refine (enqueueScore_same q atFront).bind fun s _ => ?_
      have hpush : (q.push job.name s).Steps SameTasks fun _ => True :=
        Prog.Steps.command fun w => rfl
      exact hpush.bind fun _ _ => trivial
  | datetime s =>
      refine (get_save_same _ _).bind fun r _ => ?_
      obtain ⟨job, -⟩ := r
      exact (write_same fun w => rfl).bind fun _ _ => trivial
  | other => trivial

theorem describe_same (t : Task) : (t.describe env).Steps SameTasks fun _ => True := by
  refine (read_same _).bind fun args _ => ?_
  cases argsError env args with
  | some x => trivial
  | none =>
      refine (read_same _).bind fun kwargs _ => ?_
      cases argsError env (kwargs.map TaskKwarg.toTaskArg) <;> trivial

theorem rqueue_same (t : Task) :
    (t.rqueue env).Steps SameTasks fun q => env.queues t.queue = some q.isAsync := by
  unfold Task.rqueue getQueue
  cases h : env.queues t.queue with
  | none => trivial
  | some isAsync => rfl

/-- Only a cron task without `cron_string` gets a job without a time. -/
theorem cron_of_when_none {t t' : Task} {now now' : Int} (h : t.scheduleTime env now = .ok t')
    (hpast : t'.inThePast now' = .ok false) (hwhen : Task.whenOf env t'.scheduledTime = .none) :
    t.taskType = .cron ∧ t.cronString = none ∧ env.useTz = false := by
  obtain ⟨htime, htz⟩ : t'.scheduledTime = none ∧ env.useTz = false := by
    unfold Task.whenOf at hwhen
    cases hs : t'.scheduledTime with
    | some s =>
        rw [hs] at hwhen
        cases hwhen
    | none =>
        rw [hs] at hwhen
        refine ⟨rfl, ?_⟩
        by_contra hz
        rw [Bool.not_eq_false] at hz
        rw [hz] at hwhen
        cases hwhen
  have hframe := Task.scheduleTime_frame h
  have htype : t'.taskType = t.taskType := by rw [hframe]
  have hcron : t.taskType = .cron := by
    by_contra hne
    unfold Task.inThePast at hpast
    rw [htype, htime] at hpast
    cases hty : t.taskType with
    | cron => exact hne hty
    | repeatable =>
        rw [hty] at hpast
        cases hpast
    | once =>
        rw [hty] at hpast
        cases hpast
  refine ⟨hcron, ?_, htz⟩
  cases hc : t.cronString with
  | none => rfl
  | some s =>
      rw [Task.scheduleTime_cron hcron hc] at h
      split at h
      · cases h
      · cases h
        cases htime

theorem createJob_steps {c : Task} (hc : core t = c)
    (hwhen : Task.whenOf env t.scheduledTime = .none → env.queues t.queue ≠ some false) :
    (t.createJob env).Steps (Puts c) fun t' => core t' = c := by
  have hargs : (t.readEnqueueArgs env).Steps SameTasks fun _ => True := by
    refine (read_same _).bind fun now _ => ?_
    cases t.jobMeta <;> trivial
  refine (SameTasks.puts hargs c).bind fun args _ => ?_
  refine (SameTasks.puts (rqueue_same t) c).bind fun q hq => ?_
  have hcreate : (q.createAndEnqueueJob env args (Task.whenOf env t.scheduledTime)
      t.atFront).Steps SameTasks fun _ => True := by
    refine createAndEnqueueJob_same q args _ t.atFront fun h => ?_
    by_contra hasync
    rw [Bool.not_eq_true] at hasync
    exact hwhen h (hasync ▸ hq)
  refine (SameTasks.puts hcreate c).bind fun job _ => ?_
  have hemit : (Prog.emit (.taskScheduled t.id job.name) : Py Unit).Steps SameTasks fun _ => True :=
    Prog.Steps.emit fun w => rfl
  exact (SameTasks.puts hemit c).bind fun _ _ => hc

theorem scheduleNext_steps {c : Task} (hc : core t = c) (ht : Waits env t) :
    (t.scheduleNext env).Steps (Puts c) fun t' => core t' = c := by
  refine Prog.Steps.ite (fun _ => ?_) fun _ => ?_
  · exact (SameTasks.puts (describe_same t) c).bind fun _ _ => hc
  · refine (SameTasks.puts (read_same _) c).bind fun now _ => ?_
    cases hs : t.scheduleTime env now with
    | error x => trivial
    | ok t' =>
        have hframe := Task.scheduleTime_frame hs
        have hc' : core t' = c := by
          rw [hframe]
          exact hc
        refine (SameTasks.puts (read_same _) c).bind fun now' _ => ?_
        cases hp : t'.inThePast now' with
        | error x => trivial
        | ok past =>
            cases past with
            | true => exact (SameTasks.puts (describe_same t') c).bind fun _ _ => hc'
            | false =>
                refine createJob_steps hc' fun hwhen => ?_
                obtain ⟨hcron, hnone, htz⟩ := cron_of_when_none hs hp hwhen
                have hqueue : t'.queue = t.queue := by rw [hframe]
                rw [hqueue]
                refine (ht hcron hnone).resolve_left ?_
                rw [htz]
                exact Bool.false_ne_true

theorem isScheduled_steps {c : Task} (hc : core t = c) :
    (t.isScheduled env).Steps (Puts c) fun r => core r.1 = c := by
  unfold Task.isScheduled
  cases t.jobName with
  | none => exact hc
  | some n =>
      refine (SameTasks.puts (rqueue_same t) c).bind fun q _ => ?_
      refine (SameTasks.puts (read_same _) c).bind fun res _ => ?_
      refine Prog.Steps.ite (fun _ => hc) fun _ => ?_
      have hc' : core { t with jobName := none } = c := hc
      exact (store_steps hc').bind fun _ _ => hc'

theorem saveCleaned_rest {c : Task} (hc : core t = c) (ht : Waits env t) :
    (t.schedule env >>= fun t => t.store >>= fun _ => pure t).Steps (Puts c) fun _ => True := by
  have hschedule : (t.schedule env).Steps (Puts c) fun t' => core t' = c := by
    unfold Task.schedule
    refine (isScheduled_steps hc).bind fun r hr => ?_
    obtain ⟨t', scheduled⟩ := r
    have ht' : Waits env (core t') := by
      rw [show core t' = core t from hr.trans hc.symm]
      exact ht
    exact Prog.Steps.ite (fun _ => hr) fun _ => scheduleNext_steps hr ht'
  exact hschedule.bind fun t' ht' => (store_steps ht').bind fun _ _ => trivial

theorem saveCleaned_steps {c : Task} (hc : core t = c) (ht : Waits env t) :
    (t.saveCleaned env true).Steps (Puts c) fun _ => True :=
  (store_steps hc).bind fun _ _ => saveCleaned_rest hc ht

theorem deleteJob_same (q : Queue) (n : JobName) (e : Bool) :
    (q.deleteJob env n e).Steps SameTasks fun _ => True := by
  have hall : ∀ w, (q.removeFromAll n w).tasks = w.tasks := fun w => rfl
  have hget : (if e then JobModel.get env n else pure none : Py (Option JobModel)).Steps SameTasks
      fun _ => True := Prog.Steps.ite (fun _ => read_same _) fun _ => trivial
  refine hget.bind fun job _ => ?_
  cases job with
  | none => exact write_same hall
  | some job =>
      refine Prog.Steps.ite (fun _ => ?_) fun _ => write_same fun w => ?_
      · have hdelete : job.delete.Steps SameTasks fun _ => True :=
          (write_same fun w => rfl).bind fun _ _ => trivial
        exact hdelete.bind fun _ _ => write_same hall
      · unfold Queue.expireIn
        split <;> exact hall w

theorem deleteNextJob_same (t : Task) :
    (t.deleteNextJob env).Steps SameTasks fun t' => core t' = core t := by
  unfold Task.deleteNextJob
  cases t.jobName with
  | none => rfl
  | some n =>
      refine (rqueue_same t).bind fun q _ => ?_
      exact (deleteJob_same q n true).bind fun _ _ => rfl

theorem unschedule_steps {c : Task} (hc : core t = c) :
    (t.unschedule env).Steps (Puts c) fun _ => True := by
  refine (SameTasks.puts (deleteNextJob_same t) c).bind fun t' ht' => ?_
  exact (store_steps (ht'.trans hc)).bind fun _ _ => trivial

end Steps

/-! ## The operations are transactions -/

section Transactions

variable {env : Env} {id : Nat} {c : Task} {α : Type} {p : Py α} {Q : α → Prop} {w : World}

theorem spares_of_puts (h : p.Steps (Puts c) Q) (hid : id ≠ c.id) : p.Spares (row id) Q :=
  h.mono (fun _ _ _ hs => (hs id).resolve_right fun heq => hid heq.1) fun _ ha => ha

theorem sets_of_puts (h : p.Steps (Puts c) Q) : p.Sets (row id) (some c) Q :=
  h.mono (fun _ _ _ hs => (hs id).imp_right And.right) fun _ ha => ha

theorem spares_of_same (h : p.Steps SameTasks Q) : p.Spares (row id) Q :=
  h.mono (fun _ _ _ hs => SameTasks.row hs id) fun _ ha => ha

theorem row_of_mem {t : Task} (h : t ∈ w.tasks.rows) : row t.id w = some (core t) := by
  unfold row
  rw [TaskTable.find?_of_mem _ h]
  rfl

/-- A program that saves rows as they were read. -/
theorem forEach_sets {l : List Task} {f : Task → Py Unit} {o : Option Task}
    (hl : ∀ t ∈ l, ∃ c, c.id = t.id ∧ (f t).Steps (Puts c) (fun _ => True) ∧
      (t.id = id → o = some c)) :
    (Prog.forEach l f).Sets (row id) o fun _ => True := by
  refine Prog.Steps.forEach fun t ht => ?_
  obtain ⟨c, hid, hsteps, ho⟩ := hl t ht
  by_cases h : id = t.id
  · rw [ho h.symm]
    exact sets_of_puts hsteps
  · exact (spares_of_puts hsteps fun heq => h (heq.trans hid)).sets o

theorem reschedule_transaction (X : Prop) :
    (Op.reschedule.program env).Transaction (Waiting env) (row id) (Op.reschedule.update id) X := by
  refine ⟨fun w => rfl, fun w hw => ⟨fun _ => ?_, fun hne => (hne rfl).elim⟩⟩
  refine forEach_sets (l := w.tasks.rows.filter Task.enabled) fun t ht => ?_
  have hrow := row_of_mem (List.mem_of_mem_filter ht)
  have hwaits : Waits env (core t) := hw t.id _ hrow
  refine ⟨core t, rfl, ?_, fun hid => ?_⟩
  · refine (SameTasks.puts (describe_same t) _).bind fun _ _ => ?_
    have hsave : (t.save env false true).Steps (Puts (core t)) fun _ => True :=
      saveCleaned_steps rfl hwaits
    exact hsave.bind fun _ _ => trivial
  · rw [← hid]
    exact hrow

/-- A loaded row is saved with a change. -/
def saveChanged (env : Env) (f : Task → Int → Task) (t : Task) : Py Unit := do
  let now ← utcnow
  let _ ← (f t now).save env false true

/-- The two callbacks: the row of the job's task is loaded, and saved with a change. -/
def callback (env : Env) (job : JobModel) (f : Task → Int → Task) : Py Unit := do
  match ← Task.getTaskForJob job with
  | none => pure ()
  | some t => saveChanged env f t

section Callback

variable {f : Task → Int → Task} {t : Task}

theorem saveChanged_steps (hf : ∀ now, core (f t now) = c) (hc : Waits env c) :
    (saveChanged env f t).Steps (Puts c) fun _ => True := by
  refine (SameTasks.puts (read_same _) c).bind fun now _ => ?_
  have hwaits : Waits env (core (f t now)) := by
    rw [hf]
    exact hc
  have hsave : ((f t now).save env false true).Steps (Puts c) fun _ => True :=
    saveCleaned_steps (hf now) hwaits
  exact hsave.bind fun _ _ => trivial

/-- The first thing that a save does is to write the row. -/
theorem saveChanged_owes (hf : ∀ now, core (f t now) = c) (hc : Waits env c) (X : Prop) :
    (saveChanged env f t).Owes (row c.id) (some c) X := by
  have hsave : ∀ now, ((f t now).save env false true).Owes (row c.id) (some c) X := by
    intro now
    have hwaits : Waits env (core (f t now)) := by
      rw [hf]
      exact hc
    have hid : c.id = (f t now).id := by
      rw [← hf now]
      rfl
    refine .inl ⟨fun w => ?_, fun w => sets_of_puts (saveCleaned_rest (hf now) hwaits)⟩
    exact (row_putTask _ _ _).trans ((if_pos hid).trans (congrArg some (hf now)))
  exact .inr ⟨fun w => rfl, fun w => (hsave _).bind fun _ => trivial⟩

/-- Run alone, a callback has changed the row in the end, whether it raised or not. -/
theorem row_exec_callback {job : JobModel} {t : Task} {c : Task} {f : Task → Int → Task}
    (hid : taskId job = some id) (hfind : w.tasks.find? id = some t)
    (hf : ∀ now, core (f t now) = c) (hc : Waits env c) (hkey : c.id = id) :
    row id ((callback env job f).exec w) = some c := by
  have hload : (Task.getTaskForJob job).run w = ⟨.ok (some t), w, []⟩ := by
    unfold taskId at hid
    unfold Task.getTaskForJob
    cases hty : job.taskType with
    | none =>
        rw [hty] at hid
        cases hid
    | some ty =>
        rw [hty] at hid
        have hid' : job.scheduledTaskId = some id := hid
        rw [hid']
        dsimp only
        rw [Prog.run_read, hfind]
  have hexec : (callback env job f).exec w = (saveChanged env f t).exec w := by
    unfold callback Prog.exec
    rw [Prog.run_bind, hload, Prog.Outcome.andThen_ok]
  rw [hexec, ← hkey]
  exact (saveChanged_owes hf hc False).exec w

end Callback

theorem callback_transaction {job : JobModel} {f : Task → Int → Task} {op : Op}
    (hop : op.concerns id = decide (taskId job = some id))
    (hf : ∀ t now, core (f t now) = op.change (core t)) (hkey : ∀ t, (op.change t).id = t.id)
    (hne : ∀ t, op.change t ≠ t) :
    (callback env job f).Transaction (Waiting env) (row id) (op.update id) False := by
  unfold Op.update
  rw [hop]
  unfold callback Task.getTaskForJob
  -- a job without a task does nothing
  have hnothing : taskId job = none → ∀ c : Option Task,
      (Prog.ret () : Py Unit).Pending (row id)
        (fun c => if decide (taskId job = some id) = true then c.map op.change else c) False c := by
    intro hnone c
    refine ⟨fun _ => trivial, fun hne => hne ?_⟩
    rw [hnone]
    rfl
  cases hty : job.taskType with
  | none => exact hnothing (by simp [taskId, hty])
  | some ty =>
      cases hi : job.scheduledTaskId with
      | none => exact hnothing (by simp [taskId, hty, hi])
      | some i =>
          have htask : taskId job = some i := by simp [taskId, hty, hi]
          rw [htask] at hnothing ⊢
          refine ⟨fun w => rfl, fun w hw => ?_⟩
          change Prog.Pending (row id) _ False (row id w) (match w.tasks.find? i with
            | none => pure ()
            | some t => saveChanged env f t)
          cases hfind : w.tasks.find? i with
          | none =>
              refine ⟨fun _ => trivial, fun hne => hne ?_⟩
              by_cases heq : i = id
              · subst heq
                unfold row
                rw [hfind]
                simp
              · simp [heq]
          | some t =>
              have hi : t.id = i := by simpa using List.find?_some hfind
              have hrow : row t.id w = some (core t) := by
                unfold row
                rw [hi, hfind]
                rfl
              have hwaits : Waits env (op.change (core t)) := op.waits_change (hw t.id _ hrow)
              have hkey' : (op.change (core t)).id = i := (hkey _).trans hi
              by_cases heq : i = id
              · subst heq
                have howes := saveChanged_owes (f := f) (fun now => hf t now) hwaits False
                rw [hkey'] at howes
                rw [← hi, hrow, hi]
                refine ⟨fun hsame => ?_, fun _ => ?_⟩
                · simp [hne] at hsame
                · simpa using howes
              · refine ⟨fun _ => ?_, fun hne => ?_⟩
                · refine (spares_of_puts (saveChanged_steps (fun now => hf t now) hwaits) ?_).sets _
                  rw [hkey']
                  exact fun h => heq h.symm
                · simp [heq] at hne

theorem success_transaction (job : JobModel) :
    ((Op.success job).program env).Transaction (Waiting env) (row id)
      ((Op.success job).update id) False :=
  callback_transaction (f := fun t now => { t with
      jobName := none, successfulRuns := t.successfulRuns + 1, lastSuccessfulRun := some now })
    rfl (fun _ _ => rfl) (fun _ => rfl) fun t h => by
      have hruns : t.successfulRuns + 1 = t.successfulRuns := congrArg Task.successfulRuns h
      omega

theorem failure_transaction (job : JobModel) :
    ((Op.failure job).program env).Transaction (Waiting env) (row id)
      ((Op.failure job).update id) False :=
  callback_transaction (f := fun t now => { t with
      jobName := none, failedRuns := t.failedRuns + 1, lastFailedRun := some now })
    rfl (fun _ _ => rfl) (fun _ => rfl) fun t h => by
      have hruns : t.failedRuns + 1 = t.failedRuns := congrArg Task.failedRuns h
      omega

/-! ### Disabling -/

/-- The row is written unless something was raised before. -/
theorem unschedule_owes {t : Task} (hc : core t = c) :
    (t.unschedule env).Owes (row c.id) (some c) True := by
  refine (spares_of_same (deleteNextJob_same t)).owes_bind fun t' ht' => ?_
  have hcore : core t' = c := ht'.trans hc
  have hid : c.id = t'.id := by
    rw [← hcore]
    rfl
  refine .inl ⟨fun w => ?_, fun w => trivial⟩
  exact (row_putTask _ _ _).trans ((if_pos hid).trans (congrArg some hcore))

def disabled (t : Task) : Task := { t with enabled := false }

/-- The body of the loop of `disable_selected`. -/
def disableOne (env : Env) (t : Task) : Py Unit := do
  let _ ← Task.unschedule env (disabled t)

theorem disableOne_steps (t : Task) :
    (disableOne env t).Steps (Puts (disabled (core t))) fun _ => True := by
  have hsteps : ((disabled t).unschedule env).Steps (Puts (disabled (core t))) fun _ => True :=
    unschedule_steps rfl
  exact hsteps.bind fun _ _ => trivial

/-- The loop disables the row of the task `t₀`, or raises. -/
theorem forEach_owes {l : List Task} {t₀ : Task} (hmem : t₀ ∈ l)
    (hl : ∀ t ∈ l, t.id = t₀.id → core t = core t₀) :
    (Prog.forEach l (disableOne env)).Owes (row t₀.id) (some (disabled (core t₀)))
      True := by
  induction l with
  | nil => cases hmem
  | cons t l ih =>
      have htail : ∀ t ∈ l, t.id = t₀.id → core t = core t₀ :=
        fun t ht => hl t (List.mem_cons_of_mem _ ht)
      by_cases hid : t.id = t₀.id
      · have hcore : core (disabled t) = disabled (core t₀) := by
          rw [← hl t List.mem_cons_self hid]
          rfl
        have hfirst : (disableOne env t).Owes (row t₀.id)
            (some (disabled (core t₀))) True :=
          (unschedule_owes hcore).bind fun _ => trivial
        refine hfirst.bind fun _ => forEach_sets fun t' ht' => ?_
        refine ⟨disabled (core t'), rfl, disableOne_steps t', fun hid' => ?_⟩
        rw [htail t' ht' hid']
      · have hmem' : t₀ ∈ l := by
          rcases List.mem_cons.1 hmem with rfl | h
          · exact (hid rfl).elim
          · exact h
        have hspares : (disableOne env t).Spares (row t₀.id) fun _ => True :=
          spares_of_puts (disableOne_steps t) fun h => hid h.symm
        exact hspares.owes_bind fun _ _ => ih hmem' htail

theorem disable_transaction (ids : List Nat) :
    ((Op.disable ids).program env).Transaction (Waiting env) (row id)
      ((Op.disable ids).update id) True := by
  refine ⟨fun w => rfl, fun w hw => ?_⟩
  change Prog.Pending (row id) _ True (row id w)
    (Prog.forEach ((w.tasks.select ids).filter Task.enabled) (disableOne env))
  have hselected : ∀ t, t ∈ (w.tasks.select ids).filter Task.enabled →
      t.enabled = true ∧ t.id ∈ ids ∧ row t.id w = some (core t) := by
    intro t ht
    obtain ⟨hsel, hen⟩ := List.mem_filter.1 ht
    obtain ⟨hrow, hids⟩ := List.mem_filter.1 hsel
    exact ⟨hen, of_decide_eq_true hids, row_of_mem hrow⟩
  refine ⟨fun hsame => ?_, fun hne => ?_⟩
  · -- no enabled row of the id is selected
    refine forEach_sets fun t ht => ⟨disabled (core t), rfl, disableOne_steps t, fun hid => ?_⟩
    obtain ⟨hen, hids, hrow⟩ := hselected t ht
    rw [← hid, hrow] at hsame ⊢
    simp only [Op.update, Op.concerns, hids, decide_true, if_true, Option.map_some,
      Option.some.injEq] at hsame
    have hoff : (false : Bool) = t.enabled := congrArg Task.enabled hsame
    rw [hen] at hoff
    cases hoff
  · have hids : id ∈ ids := by
      by_contra hids
      simp [Op.update, Op.concerns, hids] at hne
    cases hfind : w.tasks.find? id with
    | none =>
        unfold row at hne
        rw [hfind] at hne
        simp [Op.update] at hne
    | some t =>
        have hmem : t ∈ w.tasks.rows := List.mem_of_find?_eq_some hfind
        have hid : t.id = id := by simpa using List.find?_some hfind
        subst hid
        have hrow := row_of_mem hmem
        rw [hrow] at hne ⊢
        simp only [Op.update, Op.concerns, hids, decide_true, if_true, Option.map_some] at hne ⊢
        have hen : t.enabled = true := by
          by_contra hoff
          rw [Bool.not_eq_true] at hoff
          refine hne (congrArg some ?_)
          show { core t with enabled := false } = core t
          rw [← hoff]
          rfl
        refine forEach_owes (List.mem_filter.2 ⟨List.mem_filter.2 ⟨hmem, by simpa using hids⟩, hen⟩)
          fun t' ht' hid' => ?_
        have hrow' := (hselected t' ht').2.2
        rw [hid', hrow] at hrow'
        exact (Option.some_inj.1 hrow').symm

/-- Whether an operation may raise before it has written the row. -/
def Op.MayRaise : Op → Prop
  | .disable _ => True
  | _ => False

theorem transaction (op : Op) :
    (op.program env).Transaction (Waiting env) (row id) (op.update id) op.MayRaise := by
  cases op with
  | reschedule => exact reschedule_transaction _
  | success job => exact success_transaction job
  | failure job => exact failure_transaction job
  | disable ids => exact disable_transaction ids

end Transactions

/-! ## Runs -/

section Runs

variable {ι : Type} {env : Env} {ops : ι → Op} {w : World} {id : Nat}

/-- The operation has returned or raised. -/
def Ended (P : Pool ι World Event PyError Unit) (i : ι) : Prop :=
  P.threads i = .ret () ∨ ∃ x, P.threads i = .raise x

/-- The operations of a kind that have returned. -/
def returned (ops : ι → Op) (kind : Op → Bool) (P : Pool ι World Event PyError Unit) : Set ι :=
  {i | kind (ops i) = true ∧ P.threads i = .ret ()}

/-- The counters of the task have grown from those of `t` by the numbers of callbacks for it that
have returned. -/
structure Counted (ops : ι → Op) (P : Pool ι World Event PyError Unit) (t t' : Task) : Prop where
  successes : t'.successfulRuns = t.successfulRuns + (returned ops (Op.succeeds t.id) P).ncard
  failures : t'.failedRuns = t.failedRuns + (returned ops (Op.fails t.id) P).ncard

/-- The updates count the callbacks. -/
theorem replay_counts (ops : ι → Op) (id : Nat) (l : List ι) (t : Task) :
    ∃ t', replay (fun i => (ops i).update id) (some t) l = some t' ∧
      t'.successfulRuns = t.successfulRuns + l.countP (fun i => (ops i).succeeds id) ∧
      t'.failedRuns = t.failedRuns + l.countP fun i => (ops i).fails id := by
  induction l generalizing t with
  | nil => exact ⟨t, rfl, rfl, rfl⟩
  | cons i l ih =>
      have hfirst : ∃ t₁, (ops i).update id (some t) = some t₁ ∧
          t₁.successfulRuns = t.successfulRuns + (if (ops i).succeeds id then 1 else 0) ∧
          t₁.failedRuns = t.failedRuns + (if (ops i).fails id then 1 else 0) := by
        unfold Op.update
        cases hop : ops i with
        | reschedule => exact ⟨t, rfl, rfl, rfl⟩
        | success job =>
            by_cases h : taskId job = some id
            · exact ⟨_, if_pos (decide_eq_true h), by simp [Op.change, Op.succeeds, h], rfl⟩
            · exact ⟨t, if_neg (by simp [Op.concerns, h]), by simp [Op.succeeds, h], rfl⟩
        | failure job =>
            by_cases h : taskId job = some id
            · exact ⟨_, if_pos (decide_eq_true h), rfl, by simp [Op.change, Op.fails, h]⟩
            · exact ⟨t, if_neg (by simp [Op.concerns, h]), rfl, by simp [Op.fails, h]⟩
        | disable ids =>
            by_cases h : id ∈ ids
            · exact ⟨_, if_pos (decide_eq_true h), rfl, rfl⟩
            · exact ⟨t, if_neg (by simp [Op.concerns, h]), rfl, rfl⟩
      obtain ⟨t₁, hupdate, hs, hf⟩ := hfirst
      obtain ⟨t', hreplay, hs', hf'⟩ := ih t₁
      refine ⟨t', ?_, ?_, ?_⟩
      · show replay _ ((ops i).update id (some t)) l = some t'
        rw [hupdate]
        exact hreplay
      · rw [hs', hs, List.countP_cons]
        omega
      · rw [hf', hf, List.countP_cons]
        omega

/-- A disabled row stays disabled. -/
theorem replay_disabled {c : Option Task} (hc : ∀ t, c = some t → t.enabled = false) (l : List ι) :
    ∀ t, replay (fun i => (ops i).update id) c l = some t → t.enabled = false := by
  refine replay_induction (P := fun c : Option Task => ∀ t, c = some t → t.enabled = false)
    (fun i c hc t ht => ?_) hc l
  unfold Op.update at ht
  split at ht
  · obtain ⟨t', ht', rfl⟩ := Option.map_eq_some_iff.1 ht
    have hoff := hc t' ht'
    cases ops i with
    | reschedule => exact hoff
    | success job => exact hoff
    | failure job => exact hoff
    | disable ids => rfl
  · exact hc t ht

variable [DecidableEq ι]

/-- In a run without stale writes there is a ledger of each row. -/
theorem exists_ledger (ops : ι → Op) (hw : Waiting env w) {l : List ι}
    (hfresh : Run.Meets (Watched.step row)
      (Watched.Fresh row) (Watched.start (pool env ops w)) l) (id : Nat) :
    ∃ L, Ledger (Waiting env) row id (fun i => (ops i).update id) (fun i => (ops i).MayRaise)
      (row id w) (Run.last (Watched.step row) (.start (pool env ops w)) l) L := by
  have hI : ∀ s, (∀ k, ∃ L, row k s = replay (fun i => (ops i).update k) (row k w) L) →
      Waiting env s := by
    intro s hs k t ht
    obtain ⟨L, hL⟩ := hs k
    have hreplay : ∀ t, replay (fun i => (ops i).update k) (row k w) L = some t → Waits env t :=
      replay_induction (P := fun c : Option Task => ∀ t, c = some t → Waits env t)
        (fun i c hc => (ops i).waits_update hc) (hw k) L
    exact hreplay t (hL.symm.trans ht)
  have hstart : ∀ k, ∃ L, Ledger (Waiting env) row k (fun i => (ops i).update k)
      (fun i => (ops i).MayRaise) (row k w) (.start (pool env ops w)) L := by
    intro k
    have hk : Ledger (Waiting env) row k (fun i => (ops i).update k) (fun i => (ops i).MayRaise)
        (row k (pool env ops w).state) (.start (pool env ops w)) [] :=
      Ledger.start fun i => transaction (ops i)
    exact ⟨[], hk⟩
  have halong : Run.Along (Watched.step row) (fun W => ∀ k, ∃ L, Ledger (Waiting env) row k
      (fun i => (ops i).update k) (fun i => (ops i).MayRaise) (row k w) W L)
      (.start (pool env ops w)) l := Ledger.along hI hstart hfresh
  exact halong.last id

section Ledgers

variable {W : AtomicProg.Watched ι Nat World Event PyError Unit} {L : List ι} {t : Task}

omit [DecidableEq ι] in
/-- A callback for the task that has ended has written the row. -/
theorem mem_of_ended (h : Ledger (Waiting env) row id (fun i => (ops i).update id)
      (fun i => (ops i).MayRaise) (some t) W L) {i : ι}
    (hi : (ops i).succeeds id = true ∨ (ops i).fails id = true) (hend : Ended W.pool i) :
    i ∈ L := by
  have hmay : ¬ (ops i).MayRaise := by
    rcases hi with hi | hi <;> cases hop : ops i <;> simp [hop, Op.succeeds, Op.fails] at hi <;>
      simp [Op.MayRaise]
  have hend' : (∃ a, W.pool.threads i = .ret a) ∨
      (¬ (ops i).MayRaise ∧ ∃ x, W.pool.threads i = .raise x) :=
    hend.imp (fun h => ⟨(), h⟩) fun h => ⟨hmay, h⟩
  refine (h.ended hend').resolve_right ?_
  rintro ⟨L₀, -, hsame⟩
  obtain ⟨t₀, ht₀, -⟩ := replay_counts ops id L₀ t
  rw [ht₀] at hsame
  unfold Op.update at hsame
  rcases hi with hi | hi
  · cases hop : ops i with
    | success job =>
        rw [hop] at hi hsame
        have hruns := congrArg (Option.map Task.successfulRuns) ((if_pos hi).symm.trans hsame)
        simp [Op.change] at hruns
    | reschedule => simp [hop, Op.succeeds] at hi
    | failure job => simp [hop, Op.succeeds] at hi
    | disable ids => simp [hop, Op.succeeds] at hi
  · cases hop : ops i with
    | failure job =>
        rw [hop] at hi hsame
        have hruns := congrArg (Option.map Task.failedRuns) ((if_pos hi).symm.trans hsame)
        simp [Op.change] at hruns
    | reschedule => simp [hop, Op.fails] at hi
    | success job => simp [hop, Op.fails] at hi
    | disable ids => simp [hop, Op.fails] at hi

omit [DecidableEq ι] in
/-- A row whose disabling has returned is disabled. -/
theorem disabled_of_ledger (h : Ledger (Waiting env) row id (fun i => (ops i).update id)
      (fun i => (ops i).MayRaise) (some t) W L) {i : ι} {ids : List Nat} (hop : ops i = .disable ids)
    (hid : id ∈ ids) (hret : W.pool.threads i = .ret ()) {t' : Task}
    (ht' : row id W.pool.state = some t') : t'.enabled = false := by
  have hupdate : ∀ c t, (ops i).update id c = some t → t.enabled = false := by
    intro c t ht
    rw [hop] at ht
    unfold Op.update at ht
    rw [if_pos (show (Op.disable ids).concerns id = true from decide_eq_true hid)] at ht
    obtain ⟨t₀, -, rfl⟩ := Option.map_eq_some_iff.1 ht
    rfl
  rw [h.value] at ht'
  rcases h.ended (.inl ⟨(), hret⟩) with hmem | ⟨L₀, ⟨L₁, hL⟩, hsame⟩
  · obtain ⟨L₀, L₁, hL⟩ := List.append_of_mem hmem
    rw [hL, replay_append] at ht'
    exact replay_disabled (fun t ht => hupdate _ t ht) L₁ t' ht'
  · rw [← hL, replay_append] at ht'
    refine replay_disabled (fun t ht => ?_) L₁ t' ht'
    rw [← hsame] at ht
    exact hupdate _ t ht

end Ledgers

omit [DecidableEq ι] in
/-- The threads of a list without duplicates that are of a kind. -/
theorem countP_eq_ncard [Finite ι] {L : List ι} (hL : L.Nodup) {kind : Op → Bool}
    (hmem : ∀ i, kind (ops i) = true → i ∈ L) :
    L.countP (fun i => kind (ops i)) = {i | kind (ops i) = true}.ncard := by
  classical
  have hset : {i | kind (ops i) = true} = ((L.filter fun i => kind (ops i)).toFinset : Set ι) := by
    ext i
    simpa using hmem i
  rw [hset, Set.ncard_coe_finset, List.toFinset_card_of_nodup (hL.filter _),
    List.countP_eq_length_filter]

omit [DecidableEq ι] in
/-- All threads of a kind are counted exactly when all have returned. -/
theorem ncard_returned_iff [Finite ι] (ops : ι → Op) (kind : Op → Bool) (P : Pool ι World Event PyError Unit)
    (n : Nat) : n + {i | kind (ops i) = true}.ncard = n + (returned ops kind P).ncard ↔
      ∀ i, kind (ops i) = true → P.threads i = .ret () := by
  have hsub : returned ops kind P ⊆ {i | kind (ops i) = true} := fun i hi => hi.1
  constructor
  · intro h i hi
    have heq := Set.eq_of_subset_of_ncard_le hsub (by omega)
    have hmem : i ∈ returned ops kind P := heq ▸ hi
    exact hmem.2
  · intro h
    have heq : returned ops kind P = {i | kind (ops i) = true} :=
      hsub.antisymm fun i hi => ⟨hi, h i hi⟩
    rw [heq]

/-- **No update is lost without a stale write.** In every run in which no operation writes the row of
a task that another has changed since the operation began: a task that an action has disabled is
disabled; and when all operations have ended, the counters of a task have grown by the numbers of its
callbacks, so by the numbers of those that have returned exactly if none has raised. -/
theorem rows_kept [Finite ι] (hw : ∀ r ∈ w.tasks.rows, Waits env r) {l : List ι}
    (hfresh : Run.Meets (Watched.step row) (Watched.Fresh row) (Watched.start (pool env ops w)) l)
    {t : Task} (ht : t ∈ w.tasks.rows) :
    ∃ t', ((pool env ops w).exec l).state.tasks.find? t.id = some t' ∧
      (∀ i ids, ops i = .disable ids → t.id ∈ ids →
        ((pool env ops w).exec l).threads i = .ret () → t'.enabled = false) ∧
      ((∀ i, Ended ((pool env ops w).exec l) i) →
        (Counted ops ((pool env ops w).exec l) t t' ↔
          ∀ i, (ops i).succeeds t.id = true ∨ (ops i).fails t.id = true →
            ((pool env ops w).exec l).threads i = .ret ())) := by
  have hwaiting : Waiting env w := by
    intro id t ht
    obtain ⟨t₀, hfind, rfl⟩ := Option.map_eq_some_iff.1 ht
    exact hw t₀ (List.mem_of_find?_eq_some hfind)
  obtain ⟨L, hL⟩ := exists_ledger ops hwaiting hfresh t.id
  rw [row_of_mem ht] at hL
  have hpool : (Run.last (Watched.step row) (.start (pool env ops w)) l).pool
      = (pool env ops w).exec l := Watched.pool_last row (.start (pool env ops w)) l
  generalize (pool env ops w).exec l = P at hpool ⊢
  obtain ⟨c, hc, hs, hf⟩ := replay_counts ops t.id L (core t)
  have hrow : row t.id P.state = some c := by
    rw [← hpool]
    exact hL.value.trans hc
  obtain ⟨t', hfind, rfl⟩ := Option.map_eq_some_iff.1 hrow
  refine ⟨t', hfind, fun i ids hop hid hret => ?_, fun hend => ?_⟩
  · rw [← hpool] at hret hrow
    have hoff : (core t').enabled = false := disabled_of_ledger hL hop hid hret hrow
    exact hoff
  · have hmem : ∀ i, (ops i).succeeds t.id = true ∨ (ops i).fails t.id = true → i ∈ L := by
      intro i hi
      refine mem_of_ended hL hi ?_
      rw [hpool]
      exact hend i
    have hs' : t'.successfulRuns = t.successfulRuns + {i | (ops i).succeeds t.id = true}.ncard :=
      hs.trans (congrArg _ (countP_eq_ncard hL.nodup fun i hi => hmem i (.inl hi)))
    have hf' : t'.failedRuns = t.failedRuns + {i | (ops i).fails t.id = true}.ncard :=
      hf.trans (congrArg _ (countP_eq_ncard hL.nodup fun i hi => hmem i (.inr hi)))
    constructor
    · rintro ⟨hsuccesses, hfailures⟩ i hi
      have hall := (ncard_returned_iff ops (Op.succeeds t.id) P _).1
        (hs'.symm.trans hsuccesses)
      have hall' := (ncard_returned_iff ops (Op.fails t.id) P _).1
        (hf'.symm.trans hfailures)
      exact hi.elim (hall i) (hall' i)
    · intro hall
      refine ⟨hs'.trans ?_, hf'.trans ?_⟩
      · exact (ncard_returned_iff ops (Op.succeeds t.id) P _).2 fun i hi => hall i (.inl hi)
      · exact (ncard_returned_iff ops (Op.fails t.id) P _).2 fun i hi => hall i (.inr hi)

end Runs

/-! ## A sample -/

/-- A one-off task whose time has passed. -/
def sampleTask : Task := Sample.onceTask (-1)

def sampleWorld : World := (World.init 0).putTask sampleTask

/-- Two success callbacks for the task. -/
def twoCallbacks (_ : Bool) : Op :=
  .success { Sample.job "a" with taskType := some .once, scheduledTaskId := some 7 }

/-- A pass of a scheduler, and the action that disables the task. -/
def passAndDisable : Bool → Op
  | true => .reschedule
  | false => .disable [7]

theorem sampleTask_mem : sampleTask ∈ sampleWorld.tasks.rows := List.mem_singleton_self _

/-- One callback after the other. -/
def sampleRun : List Bool := List.replicate 8 false ++ List.replicate 8 true

theorem sampleRun_fresh : Run.Meets (Watched.step row) (Watched.Fresh row)
    (Watched.start (pool Sample.env twoCallbacks sampleWorld)) sampleRun := by
  refine Run.meets_append.2 ⟨Watched.meets_replicate (fun S hS => ?_) 8,
    Watched.meets_replicate (fun S hS => ?_) 8⟩
  · cases hS
  · rw [Watched.moved_replicate Bool.false_ne_true.symm rfl 8] at hS
    cases hS

theorem rows_kept_one_after_the_other :
    ∃ t', ((pool Sample.env twoCallbacks sampleWorld).exec sampleRun).state.tasks.find? sampleTask.id
        = some t' ∧
      (∀ i ids, twoCallbacks i = .disable ids → sampleTask.id ∈ ids →
        ((pool Sample.env twoCallbacks sampleWorld).exec sampleRun).threads i = .ret () →
          t'.enabled = false) ∧
      ((∀ i, Ended ((pool Sample.env twoCallbacks sampleWorld).exec sampleRun) i) →
        (Counted twoCallbacks ((pool Sample.env twoCallbacks sampleWorld).exec sampleRun)
            sampleTask t' ↔
          ∀ i, (twoCallbacks i).succeeds sampleTask.id = true ∨
              (twoCallbacks i).fails sampleTask.id = true →
            ((pool Sample.env twoCallbacks sampleWorld).exec sampleRun).threads i = .ret ())) := by
  refine rows_kept (fun r hr => ?_) sampleRun_fresh sampleTask_mem
  obtain rfl := List.mem_singleton.1 hr
  intro htype
  cases htype

/-- Both callbacks load the row before one of them saves it, and one run is not counted. The pass of
the scheduler loads the row before the task is disabled, and enables it again. -/
theorem updates_lost :
    (¬ ∀ l t', (∀ i, Ended ((pool Sample.env twoCallbacks sampleWorld).exec l) i) →
      ((pool Sample.env twoCallbacks sampleWorld).exec l).state.tasks.find? 7 = some t' →
      Counted twoCallbacks ((pool Sample.env twoCallbacks sampleWorld).exec l) sampleTask t') ∧
    (¬ ∀ l t', (∀ i, Ended ((pool Sample.env passAndDisable sampleWorld).exec l) i) →
      ((pool Sample.env passAndDisable sampleWorld).exec l).state.tasks.find? 7 = some t' →
      ((pool Sample.env passAndDisable sampleWorld).exec l).threads false = .ret () →
      t'.enabled = false) := by
  constructor
  · intro h
    let l := List.replicate 2 false ++ List.replicate 8 true ++ List.replicate 6 false
    have hret : ∀ i, ((pool Sample.env twoCallbacks sampleWorld).exec l).threads i = .ret () := by
      intro i
      cases i <;> rfl
    have hone : (((pool Sample.env twoCallbacks sampleWorld).exec l).state.tasks.find? 7).map
        Task.successfulRuns = some 1 := by decide +kernel
    obtain ⟨t', hfind, hruns⟩ := Option.map_eq_some_iff.1 hone
    have hcounted := (h l t' (fun i => .inl (hret i)) hfind).successes
    have hall : returned twoCallbacks (Op.succeeds sampleTask.id)
        ((pool Sample.env twoCallbacks sampleWorld).exec l) = Set.univ :=
      Set.eq_univ_of_forall fun i => ⟨by cases i <;> rfl, hret i⟩
    rw [hall, Set.ncard_univ, hruns] at hcounted
    simp [sampleTask, Sample.onceTask] at hcounted
  · intro h
    let l := List.replicate 5 true ++ List.replicate 8 false ++ List.replicate 8 true
    have hret : ∀ i, ((pool Sample.env passAndDisable sampleWorld).exec l).threads i = .ret () := by
      intro i
      cases i <;> rfl
    have hon : (((pool Sample.env passAndDisable sampleWorld).exec l).state.tasks.find? 7).map
        Task.enabled = some true := by decide +kernel
    obtain ⟨t', hfind, hen⟩ := Option.map_eq_some_iff.1 hon
    have hoff := h l t' (fun i => .inl (hret i)) hfind (hret false)
    rw [hoff] at hen
    cases hen

end DailyScheduler.Counters
