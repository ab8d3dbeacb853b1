import DailyScheduler.Execution.Frame
import DailyScheduler.Lib.Returns
import DailyScheduler.Queues.Order
import DailyScheduler.Queues.Priority

set_option autoImplicit false

/-! # A worker in burst mode

With `burst` a worker takes jobs until it finds none. Of the rounds of its loop this is the part that takes a
job and hands it to `execute_job`. If the functions that it calls leave the queues alone, and make no record of
a job that waits loadable or unloadable, it takes the jobs of its queues whose records load queue by queue, each
queue in its order and each job once, and none is left when the rounds end without an exception.
-/

namespace DailyScheduler.Burst

open AtomicProg Priority

/-! ## What is to be done -/

/-- Whether the record of a job can be loaded. -/
def loads (w : World) (n : JobName) : Bool := (w.jobs.find? n).any fun h => h.complete

/-- The entries of the queue whose records load. -/
def readySet (w : World) (q : Queue) : SortedSet Int JobName :=
  (w.registry q.name .queued).filter fun p => loads w p.2

/-- The jobs of the queue, in its order. -/
def ready (w : World) (q : Queue) : List JobName := (readySet w q).members

/-- The jobs of all queues, queue by queue. -/
def todo (queues : List Queue) (w : World) : List JobName := queues.flatMap (ready w)

/-- The jobs that were delivered. -/
def deliveries (es : List Event) : List JobName :=
  es.filterMap fun e => match e with
    | .delivered n => some n
    | _ => none

@[simp] theorem deliveries_nil : deliveries [] = [] := rfl

section Ready

variable {w w' : World} {q : Queue} {n : JobName} {s : Int}

end Ready

/-! ## Taking a job -/

section Taking

variable {env : Env} {queues : List Queue} {w : World}
  {o : Prog.Outcome World Event PyError (Option (JobModel × Queue))}

end Taking

/-! ## Executing a job -/

/-- The jobs that wait in the queues still do, and their records are as good as before. -/
structure Spared (queues : List Queue) (w w' : World) : Prop where
  registry : ∀ q ∈ queues, w'.registry q.name .queued = w.registry q.name .queued
  loadable : ∀ q ∈ queues, ∀ n, w.inRegistry q.name .queued n → (w'.loadable n ↔ w.loadable n)

/-- What user code may do. -/
def Quiet (queues : List Queue) (w w' : World) (es : List Event) : Prop :=
  Spared queues w w' ∧ ∀ e ∈ es, ∀ n, e ≠ .delivered n

/-- The job waits in none of the queues. -/
def Absent (queues : List Queue) (n : JobName) (w : World) : Prop :=
  ∀ q ∈ queues, ¬ w.inRegistry q.name .queued n

section Executing

variable {env : Env} {queues : List Queue} {n : JobName} {w w' : World} {es : List Event}

theorem Spared.refl (w : World) : Spared queues w w := ⟨fun _ _ => rfl, fun _ _ _ _ => Iff.rfl⟩

theorem Spared.inRegistry (h : Spared queues w w') {q : Queue} (hq : q ∈ queues) (n : JobName) :
    w'.inRegistry q.name .queued n ↔ w.inRegistry q.name .queued n := by
  unfold World.inRegistry
  rw [h.registry q hq]

theorem Spared.trans {w'' : World} (h : Spared queues w w') (h' : Spared queues w' w'') :
    Spared queues w w'' := by
  refine ⟨fun q hq => (h'.registry q hq).trans (h.registry q hq), fun q hq n hn => ?_⟩
  rw [h'.loadable q hq n ((h.inRegistry hq n).2 hn), h.loadable q hq n hn]

theorem Spared.absent (h : Spared queues w w') (hn : Absent queues n w) : Absent queues n w' :=
  fun q hq hin => hn q hq ((h.inRegistry hq n).1 hin)

/-- The commands of the execution of a job that waits no longer. -/
theorem Spared.of_execStep {q : QueueName} (h : ExecStep q n w w' es) (hn : Absent queues n w) :
    Spared queues w w' := by
  refine ⟨fun q' _ => ?_, fun q' hq' m hm => ?_⟩
  · cases h with
    | add k s hk =>
        -- the registries of jobs that run or have ended
        refine if_neg fun heq => ?_
        rcases hk with rfl | rfl | rfl <;> cases heq.2
    | remove =>
        refine if_neg fun heq => ?_
        cases heq.2
    | save j sa hj => rfl
    | _ => rfl
  · have hne : m ≠ n := fun heq => hn q' hq' (heq ▸ hm)
    exact World.loadable_congr (Untouched.of_execStep h hne).find?

theorem After.next_returns {α β : Type} {p : Py (After α)} {f : JobModel → α → Py (After β)} (hp : p.Returns)
    (hf : ∀ j a, (f j a).Returns) : (After.next p f).Returns := by
  refine hp.bind fun r => ?_
  obtain ⟨j, x | a⟩ := r
  · trivial
  · exact hf j a

theorem save_returns (j : JobModel) (saveAll : Bool) : (j.save saveAll).Returns :=
  .ite (fun _ => (Prog.Returns.write _).bind fun _ => trivial) fun _ => trivial

theorem call_returns (j : JobModel) (f : JobModel → Py CallOutcome) : (j.call f).Returns := by
  refine (Prog.Returns.attempt (f j)).bind fun r => ?_
  cases r with
  | error x => trivial
  | ok o => cases hv : o.val <;> simp [hv, Prog.Returns]

theorem callCallback_returns (env : Env) (j : JobModel) (name : Option String) (timeout : Option Int)
    (e : Event) : (j.callCallback env name timeout e).Returns := by
  unfold JobModel.callCallback
  cases name with
  | none => trivial
  | some name =>
      dsimp only
      cases Callback.resolve env name timeout with
      | error x => trivial
      | ok f =>
          refine (Prog.Returns.emit _).bind fun _ => ?_
          exact After.next_returns (call_returns j f) fun _ _ => trivial

theorem afterCall_returns (env : Env) (j : JobModel) (o : CallOutcome) : (afterCall env j o).Returns := by
  refine After.next_returns (save_returns j true) fun j _ => After.next_returns ?_ fun j _ => ?_
  · unfold runCoroutine
    cases o.coroutine with
    | none => trivial
    | some p =>
        refine (Prog.Returns.attempt p).bind fun r => ?_
        cases r <;> trivial
  · exact After.next_returns (callCallback_returns env j _ _ _) fun _ _ => trivial

theorem queuePerformJob_returns (env : Env) (j : JobModel) : (queuePerformJob env j).Returns := by
  refine (Prog.Returns.write _).bind fun _ => Prog.Returns.bind (After.next_returns ?_ ?_) fun r => ?_
  · unfold callFunc
    cases env.callableFunc j.funcName with
    | error x => trivial
    | ok f => exact (Prog.Returns.emit _).bind fun _ => call_returns j f
  · exact fun j o => afterCall_returns env j o
  · obtain ⟨j, x | v⟩ := r
    · exact .ite (fun _ => After.next_returns (callCallback_returns env j _ _ _) fun _ _ => trivial)
        fun _ => trivial
    · trivial

end Executing

/-! ## Until nothing is left -/

section Working

variable {env : Env} {queues : List Queue}

section Rounds

variable {fuel : Nat} {w : World} {o : Prog.Outcome World Event PyError (Option (JobModel × Queue))}
  {job : JobModel} {q : Queue} {fork : Bool} {wk wk' : Worker} {x : PyError}
  (ho : (Queue.dequeueAny env queues none fuel).run w = o)
include ho

end Rounds

section Takes

variable {w : World} {o : Prog.Outcome World Event PyError (Option (JobModel × Queue))}

end Takes

/-- The loop from `w` on: it takes what is to be done in its order; if it returns, and so it does when jobs
have processes of their own, it has taken all of it. -/
structure Done (queues : List Queue) (fork : Bool) (w : World)
    (o : Prog.Outcome World Event PyError Worker) : Prop where
  inOrder : deliveries o.trace <+: todo queues w
  all : ∀ wk, o.val = .ok wk → deliveries o.trace = todo queues w ∧ todo queues o.state = []
  returns : fork = true → ∃ wk, o.val = .ok wk

end Working

end DailyScheduler.Burst
