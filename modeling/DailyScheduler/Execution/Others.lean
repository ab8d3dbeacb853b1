import DailyScheduler.Execution.Steps
import DailyScheduler.Model.Operations

set_option autoImplicit false

/-! # Operations on other jobs

What an operation on one job does is, for every other job `n`, a sequence of a few kinds of commands.
`Others env n R` says that those commands, and the steps of user code, are in `R`; then the programs
for other jobs take only steps in `R`.
-/

namespace DailyScheduler

open AtomicProg

/-- The commands for jobs other than `n` are in `R`, and so are the steps of user code. -/
structure Others (env : Env) (n : JobName) (R : World → World → List Event → Prop) : Prop where
  same : ∀ w, R w w []
  called : ∀ w m, m ≠ n → R w w [.called m]
  exec : ∀ w w' es q m, m ≠ n → ExecStep q m w w' es → R w w' es
  expire : ∀ w w' es m, m ≠ n → ExpireStep m w w' es → R w w' es
  push : ∀ w q m s, m ≠ n → R w ((w.zrem q .scheduled m).zadd q .queued m s) [.enqueued q m]
  schedule : ∀ w q m s, m ≠ n → R w (w.zadd q .scheduled m s) []
  user : UserCode env R

namespace Others

variable {env : Env} {n m : JobName} {R : World → World → List Event → Prop} {j : JobModel}
  {q : Queue}

/-- The execution of another job. -/
theorem of_exec (h : Others env n R) {α : Type} {p : Py α} {Q : α → Prop} {q : QueueName}
    (hp : p.Steps (ExecOr q m R) Q) (hm : m ≠ n) : p.Steps R Q :=
  hp.mono (fun w w' es hs => hs.elim (h.exec w w' es q m hm) id) fun _ => id

/-- A method of another job's object that returns the object. -/
theorem get_steps (h : Others env n R) {q : QueueName} {p : Py (After Unit)}
    (hp : p.Steps (ExecOr q m R) (Named m)) (hm : m ≠ n) :
    (After.get p).Steps R fun r => r.1.name = m :=
  After.get_steps (h.of_exec hp hm) fun _ _ hr => hr

theorem read (h : Others env n R) {β : Type} (g : World → β) :
    (Prog.read g : Py β).Steps R fun _ => True :=
  fun w => ⟨h.same w, trivial⟩

theorem enqueueScore_steps (h : Others env n R) (q : Queue) (atFront : Bool) :
    (q.enqueueScore atFront).Steps R fun _ => True := by
  refine Prog.Steps.ite (fun _ => h.read _) fun _ => ?_
  have hlast : q.queuedJobRegistry.getLastTimestamp.Steps R fun _ => True := by
    refine Prog.Steps.bind (Q := fun _ => True) ?_ fun _ _ => trivial
    exact Prog.Steps.bind (Q := fun _ => True) trivial fun _ _ => h.read _
  refine hlast.bind fun last _ => ?_
  cases last with
  | none => exact h.read _
  | some t => exact Prog.Steps.ite (fun _ => h.read _) fun _ => trivial

/-- `enqueue_job`, with the execution on a queue without workers. -/
theorem enqueueJob_steps (h : Others env n R) (hj : j.name ≠ n) (atFront : Bool) :
    (q.enqueueJob env j atFront).Steps R fun _ => True := by
  refine (h.read _).bind fun now _ => ?_
  have hsave : ((Queue.enqueuedModel j now).save false).Steps (ExecOr q.name j.name R)
      (Named j.name) := save_steps false rfl
  refine (h.get_steps hsave hj).bind fun r hr => ?_
  obtain ⟨j', u⟩ := r
  have hj' : j'.name ≠ n := by
    rw [show j'.name = j.name from hr]
    exact hj
  refine Prog.Steps.ite (fun _ => ?_) fun _ => ?_
  · refine (h.enqueueScore_steps q atFront).bind fun score _ => ?_
    refine Prog.Steps.bind (Q := fun _ => True) ?_ fun _ _ => trivial
    exact Prog.Steps.command fun w => h.push w q.name j'.name score hj'
  · have hsync : (q.runSync env j').Steps (ExecOr q.name j'.name fun w w' es =>
        R w w' es) (Named j'.name) := runSync_steps h.user (fun w => h.called w _ hj') rfl
    refine (h.get_steps hsync hj').bind fun r hr => ?_
    have hr' : r.1.name ≠ n := by
      rw [hr]
      exact hj'
    refine (expire_steps rfl _).mono (fun w w' es hs => ?_) fun _ _ => trivial
    exact h.expire w w' es r.1.name hr' hs

/-- The last part of `create_and_enqueue_job`. -/
theorem placeJob_steps (h : Others env n R) (hj : j.name ≠ n) (when' : Queue.When)
    (atFront : Bool) : (q.placeJob env j when' atFront).Steps R fun _ => True := by
  cases when' with
  | none => exact h.enqueueJob_steps hj atFront
  | datetime t =>
      have hsave : (j.save false).Steps (ExecOr q.name j.name R) (Named j.name) :=
        save_steps false rfl
      refine (h.get_steps hsave hj).bind fun r hr => ?_
      have hname : r.1.name ≠ n := by
        rw [hr]
        exact hj
      exact (Prog.Steps.write fun w => h.schedule w q.name r.1.name (t.timestamp env) hname).bind fun _ _ => trivial
  | other => trivial

/-- The end of a successful execution by a worker. -/
theorem finishJob_steps (h : Others env n R) (hj : j.name ≠ n) (v : PyValue) :
    (Op.finishJob q j v).Steps R fun _ => True := by
  have hsave : (j.save true).Steps (ExecOr q.name j.name R) (Named j.name) := save_steps true rfl
  refine (h.get_steps hsave hj).bind fun r hr => ?_
  have hr' : r.1.name ≠ n := by
    rw [hr]
    exact hj
  have hsuccess : (q.jobHandleSuccess r.1 v r.1.jobInfoTtl r.1.successTtl).Steps
      (ExecOr q.name r.1.name R) (Named r.1.name) := jobHandleSuccess_steps rfl v _ _
  refine (h.get_steps hsuccess hr').bind fun r' hr'' => ?_
  have hname : r'.1.name ≠ n := by
    rw [hr'']
    exact hr'
  refine Prog.Steps.bind (Q := fun _ => True) ?_ fun _ _ => trivial
  refine (expire_steps rfl _).mono (fun w w' es hs => ?_) fun _ _ => trivial
  exact h.expire w w' es r'.1.name hname hs

end Others

end DailyScheduler
