import DailyScheduler.Lib.Breaks
import DailyScheduler.Model.WorkerLoop

set_option autoImplicit false

/-! # Waiting for a job

`Worker.dequeue_job_and_maintain_ttl`: the loop in which a worker waits for a job, keeps its record
alive, narrows the timeout of the next attempt, and gives up after its maximal idle time.

The broker may be out of reach for a while: a `Round` says after how many steps of the two parts of the
`try` block the connection breaks.
-/

namespace DailyScheduler

open AtomicProg

/-- `ConnectionErrorTypes`. -/
def connectionError : PyError := .exception "ConnectionError"

namespace Queue

/-- `dequeue_any`, with the rounds of its loop counted: `none` when they are used up. -/
def dequeueWithin (env : Env) (queues : List Queue) (timeout : Option Int) :
    Nat → Py (Option (Option (JobModel × Queue)))
  | 0 => pure none
  | fuel + 1 => do
      Prog.forEach queues fun q => q.queuedJobRegistry.compact
      match ← Registry.pop (queues.map Queue.name) timeout with
      | none => pure (some none)
      | some (key, n) =>
          match queues.find? (fun q => q.name = key) with
          | none => pure (some none)
          | some q => do
              let job ← JobModel.get env n
              match job with
              | some job => do
                  Prog.emit (.delivered n)
                  pure (some (some (job, q)))
              | none => do
                  Prog.emit (.dropped n)
                  dequeueWithin env queues timeout fuel

/-- `dequeueAny` makes no difference between no job and no more rounds. -/
theorem dequeueAny_eq (env : Env) (queues : List Queue) (timeout : Option Int) (fuel : Nat) :
    dequeueAny env queues timeout fuel = (do
      let r ← dequeueWithin env queues timeout fuel
      pure r.join) := by
  induction fuel with
  | zero => rfl
  | succ fuel ih =>
      unfold dequeueAny dequeueWithin
      rw [Prog.bind_assoc]
      refine congrArg _ (funext fun _ => ?_)
      rw [Prog.bind_assoc]
      refine congrArg _ (funext fun r => ?_)
      cases r with
      | none => rfl
      | some p =>
          obtain ⟨key, n⟩ := p
          dsimp only
          cases queues.find? (fun q => q.name = key) with
          | none => rfl
          | some q =>
              dsimp only
              rw [Prog.bind_assoc]
              refine congrArg _ (funext fun job => ?_)
              cases job with
              | some job => rfl
              | none =>
                  dsimp only
                  rw [ih, Prog.bind_assoc]

end Queue

namespace Worker

/-- What happens to a round of the loop: how often `dequeue_any` finds no record for a name, and where
the connection breaks, in the upkeep or while dequeuing. -/
structure Round where
  fuel : Nat
  upkeepBreaks : Option Nat
  dequeueBreaks : Option Nat

/-- The local variables of the loop. -/
structure Waiting where
  timeout : Option Int
  idleTimeLeft : Option Int
  connectionWaitTime : Int

namespace Waiting

/-- `min(timeout, idle_time_left)`. -/
def narrowed (s : Waiting) : Waiting :=
  match s.timeout, s.idleTimeLeft with
  | some t, some left => { s with timeout := some (min t left) }
  | _, _ => s

/-- `math.ceil(max_idle_time - idle_for)`; a clock reading is in microseconds. -/
def timeLeft (maxIdleTime idleSince now : Int) : Int :=
  -(-(secs maxIdleTime - (now - idleSince)) / 1000000)

/-- The `except` clauses, and whether the loop is left. The sleep only lets time pass. -/
def handle (maxIdleTime : Option Int) (idleSince : Int) (s : Waiting) (x : PyError) :
    Py (Waiting × Bool) :=
  if x = .dequeueTimeout then
    match maxIdleTime with
    | none => pure (s, false)
    | some m => do
        let now ← utcnow
        let left := timeLeft m idleSince now
        pure ({ s with idleTimeLeft := some left }, decide (left ≤ 0))
  else if x = connectionError then
    pure ({ s with connectionWaitTime := min (s.connectionWaitTime * 2) 60 }, false)
  else throw x

end Waiting

/-- What the loop needs of its surroundings: `maintain` stands for `should_run_maintenance_tasks` and
`run_maintenance_tasks`, `dequeueAny` for `Queue.dequeue_any` on the ordered queues, `reorder` for
`reorder_queues`. -/
structure Surroundings where
  maintain : Worker → Py Worker
  dequeueAny : Option Int → Nat → Py (Option (Option (JobModel × Queue)))
  orderedQueues : List Queue
  reorder : Queue → Except PyError (List Queue)

/-- What the loop ends with. -/
structure Dequeued where
  worker : Worker
  orderedQueues : List Queue
  found : Option (JobModel × Queue)

/-- After an attempt that failed: the loop is left with nothing found, or goes on. -/
def leaveOr (d : Dequeued) (next : Waiting → Py (Option Dequeued)) (r : Waiting × Bool) :
    Py (Option Dequeued) :=
  if r.2 then pure (some d) else next r.1

/-- The rounds of the loop; `none` when they are used up. -/
def waitLoop (env : Env) (S : Surroundings) (maxIdleTime : Option Int) (idleSince : Int) :
    List Round → Waiting → Worker → Py (Option Dequeued)
  | [], _, _ => pure none
  | round :: rounds, s, w => do
      let upkeep : Py Worker := do
        let w ← w.heartbeat env 0
        S.maintain w
      match ← (upkeep.broken connectionError round.upkeepBreaks).attempt with
      | .error x =>
          s.handle maxIdleTime idleSince x >>= leaveOr ⟨w, S.orderedQueues, none⟩ fun s =>
            waitLoop env S maxIdleTime idleSince rounds s w
      | .ok w => do
          let s := s.narrowed
          let dequeue := S.dequeueAny s.timeout round.fuel
          match ← (dequeue.broken connectionError round.dequeueBreaks).attempt with
          | .error x =>
              s.handle maxIdleTime idleSince x >>= leaveOr ⟨w, S.orderedQueues, none⟩ fun s =>
                waitLoop env S maxIdleTime idleSince rounds s w
          | .ok none => pure none
          | .ok (some none) => pure (some ⟨w, S.orderedQueues, none⟩)
          | .ok (some (some (job, q))) =>
              match S.reorder q with
              | .error x => throw x
              | .ok orderedQueues => pure (some ⟨w, orderedQueues, some (job, q)⟩)

/-- `dequeue_job_and_maintain_ttl`. -/
def dequeueJobAndMaintainTtl (env : Env) (S : Surroundings) (timeout maxIdleTime : Option Int)
    (rounds : List Round) (w : Worker) : Py (Option Dequeued) := do
  let w ← w.setState .idle
  let idleSince ← utcnow
  match ← waitLoop env S maxIdleTime idleSince rounds ⟨timeout, maxIdleTime, 1⟩ w with
  | none => pure none
  | some d => do
      let w ← d.worker.heartbeat env 0
      pure (some { d with worker := w })

/-- The timeout that `work` passes. -/
def workTimeout (env : Env) (burst : Bool) : Option Int :=
  if burst then none else some (env.config.DEFAULT_WORKER_TTL - 15)

end Worker

end DailyScheduler
