import DailyScheduler.Execution.Steps
import DailyScheduler.Model.WorkerLoop

set_option autoImplicit false

/-! # What executing a job does to the records of workers

Preparing a job, performing it and storing its outcome send no command to the record of a worker: they
take only steps that leave these records alone (`LeavesWorkers R`: these are in `R`), and those of the user
code (`SparesWorkers env R`: so are these).
-/

namespace DailyScheduler

open AtomicProg

/-- Steps that leave the records of workers alone are in `R`. -/
structure LeavesWorkers (R : World → World → List Event → Prop) : Prop where
  same : ∀ w w' es, w'.workers = w.workers → R w w' es

/-- And so are the steps of user code. -/
structure SparesWorkers (env : Env) (R : World → World → List Event → Prop) : Prop
    extends LeavesWorkers R where
  user : UserCode env R

namespace LeavesWorkers

variable {env : Env} {R : World → World → List Event → Prop}

theorem write (h : LeavesWorkers R) {f : World → World} (hf : ∀ w, (f w).workers = w.workers) :
    (Prog.write f : Py Unit).Steps R fun _ => True :=
  Prog.Steps.write fun w => h.same w _ [] (hf w)

theorem read (h : LeavesWorkers R) {α : Type} (g : World → α) :
    (Prog.read g : Py α).Steps R fun _ => True :=
  fun w => ⟨h.same w w [] rfl, trivial⟩

theorem workers_saveJob (w : World) (j : JobModel) (saveAll : Bool) :
    (w.saveJob j saveAll).workers = w.workers := by
  unfold World.saveJob
  rfl

theorem save (h : LeavesWorkers R) (j : JobModel) (saveAll : Bool) :
    (j.save saveAll).Steps R fun _ => True := by
  refine Prog.Steps.ite (fun _ => ?_) fun _ => trivial
  exact Prog.Steps.bind (h.write fun w => workers_saveJob w j saveAll) fun _ _ => trivial

theorem addFor (h : LeavesWorkers R) (r : Registry) (n : JobName) (ttl : Int) :
    (JobModel.addFor r n ttl).Steps R fun _ => True :=
  Prog.Steps.ite (fun _ => trivial) fun _ => Prog.Steps.bind (h.read _) fun _ _ => h.write fun _ => rfl

theorem prepareForExecution (h : LeavesWorkers R) (j : JobModel) (name : WorkerName)
    (r : Registry) : (j.prepareForExecution name r).Steps R fun _ => True :=
  Prog.Steps.bind (h.read _) fun _ _ => Prog.Steps.bind (h.write fun _ => rfl) fun _ _ => h.save _ false

theorem afterExecution (h : LeavesWorkers R) (j : JobModel) (ttl : Int) (status : JobStatus)
    (r r' : Registry) : (j.afterExecution ttl status r r').Steps R fun _ => True := by
  refine Prog.Steps.bind (h.read _) fun _ _ => Prog.Steps.bind (h.write fun _ => rfl) fun _ _ => ?_
  exact Prog.Steps.bind (h.addFor _ _ _) fun _ _ => h.save _ false

theorem expire (h : LeavesWorkers R) (j : JobModel) (ttl : Int) :
    (j.expire ttl).Steps R fun _ => True := by
  refine Prog.Steps.ite (fun _ => ?_) fun _ => Prog.Steps.ite (fun _ => ?_) fun _ => trivial
  · exact Prog.Steps.bind (h.write fun _ => rfl) fun _ _ => trivial
  · exact Prog.Steps.bind (h.write fun _ => rfl) fun _ _ => trivial

/-! ## The outcome -/

theorem workers_xadd (w : World) (r : Result (Option Stored)) : (w.xadd r).workers = w.workers := by
  unfold World.xadd
  rfl

theorem resultCreate (h : LeavesWorkers R) (n : JobName) (name : Option WorkerName)
    (type : ResultType) (ttl : Int) (v : PyValue) (s : Option String) :
    (Result.create n name type ttl v s).Steps R fun _ => True := by
  refine Prog.Steps.bind (h.read _) fun _ _ => Prog.Steps.ite (fun _ => h.write fun _ => rfl) fun _ => ?_
  exact Prog.Steps.ite (fun _ => h.write fun w => workers_xadd w _) fun _ => trivial

theorem jobHandleSuccess (h : LeavesWorkers R) (q : Queue) (j : JobModel) (v : PyValue)
    (ttl ttl' : Int) : (q.jobHandleSuccess j v ttl ttl').Steps R fun _ => True := by
  refine After.next_steps (h.afterExecution _ _ _ _ _) (fun _ _ _ => ?_) fun _ _ _ => trivial
  exact Prog.Steps.bind (h.resultCreate _ _ _ _ _ _).attempt fun _ _ => trivial

theorem jobHandleFailure (h : LeavesWorkers R) (q : Queue) (status : JobStatus) (j : JobModel)
    (s : String) : (q.jobHandleFailure env status j s).Steps R fun _ => True := by
  refine After.next_steps (h.afterExecution _ _ _ _ _) (fun _ _ _ => ?_) fun _ _ _ => trivial
  exact Prog.Steps.bind (h.resultCreate _ _ _ _ _ _).attempt fun _ _ => trivial

end LeavesWorkers

namespace SparesWorkers

variable {env : Env} {R : World → World → List Event → Prop}

/-! ## User code -/

theorem callCallback (h : SparesWorkers env R) (j : JobModel) (name : Option String)
    (timeout : Option Int) (e : Event) : (j.callCallback env name timeout e).Steps R fun _ => True :=
  (callCallback_steps (n := j.name) h.user rfl name timeout fun w => h.same w w [e] rfl).of_true

theorem afterCall (h : SparesWorkers env R) (j : JobModel) {o : CallOutcome}
    (ho : ∀ p, o.coroutine = some p → p.Steps R fun _ => True) :
    (DailyScheduler.afterCall env j o).Steps R fun _ => True := by
  refine After.next_steps (h.save j true) (fun j _ _ => ?_) fun _ _ _ => trivial
  refine After.next_steps (runCoroutine_steps (n := j.name) rfl ho) (fun j _ _ => ?_)
    fun _ _ _ => trivial
  exact After.next_steps (h.callCallback _ _ _ _) (fun _ _ _ => trivial) fun _ _ _ => trivial

theorem exceptClause (h : SparesWorkers env R) (r : After PyValue) :
    (DailyScheduler.exceptClause env r).Steps R fun _ => True := by
  obtain ⟨j, x | v⟩ := r
  · refine Prog.Steps.ite (fun _ => ?_) fun _ => trivial
    exact After.next_steps (h.callCallback _ _ _ _) (fun _ _ _ => trivial) fun _ _ _ => trivial
  · trivial

theorem queuePerformJob (h : SparesWorkers env R) (j : JobModel) :
    (DailyScheduler.queuePerformJob env j).Steps R fun _ => True := by
  refine Prog.Steps.bind (h.write fun _ => rfl) fun _ _ => ?_
  refine Prog.Steps.bind (Q := fun _ => True) ?_ fun r _ => h.exceptClause r
  have hfunc : (callFunc env j).Steps R fun r => Named j.name r ∧ ∀ o, r.2 = .ok o →
      ∀ p, o.coroutine = some p → p.Steps R fun _ => True := by
    unfold callFunc
    cases hf : env.callableFunc j.funcName with
    | error x => exact ⟨rfl, by simp⟩
    | ok f =>
        have hemit : (Prog.emit (.called j.name) : Py Unit).Steps R fun _ => True :=
          Prog.Steps.emit fun w => h.same w w _ rfl
        exact hemit.bind fun _ _ => call_steps h.user hf rfl
  exact After.next_steps hfunc (fun j' o ho => h.afterCall j' (ho.2 o rfl)) fun _ _ _ => trivial

theorem performAndStore (h : SparesWorkers env R) (wk : Worker) (j : JobModel) (q : Queue) :
    (wk.performAndStore env j q).Steps R fun _ => True := by
  refine After.next_steps (h.prepareForExecution _ _ _) (fun _ _ _ => ?_) fun _ _ _ => trivial
  refine After.next_steps (h.queuePerformJob _) (fun _ _ _ => ?_) fun _ _ _ => trivial
  exact h.jobHandleSuccess _ _ _ _ _

end SparesWorkers

end DailyScheduler
