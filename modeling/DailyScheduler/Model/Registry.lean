import DailyScheduler.Model.World

set_option autoImplicit false

/-! # Registries

`redis_models/registry/base_registry.py` and the registries of a queue in
`queue_registries.py`. Every registry is a sorted set of job names scored by a time. The
finished, failed and active registries drop their expired entries whenever they are read
(`cleanup`); the queued, scheduled and canceled ones do not.
-/

namespace DailyScheduler

open AtomicProg

/-- `utcnow` and `timezone.now`. -/
def utcnow : Py Int := Prog.read World.now

/-- `current_timestamp`, as a step. -/
def readTimestamp : Py Int := Prog.read fun w => currentTimestamp w.now

/-- `timestamp or current_timestamp()`: a timestamp that is missing or zero is replaced. -/
def timestampOrNow : Option Int → Py Int
  | none => readTimestamp
  | some t => if t = 0 then readTimestamp else pure t

/-- A `JobNamesRegistry`: one of the registries of one queue. -/
structure Registry where
  queue : QueueName
  kind : RegistryKind
  deriving DecidableEq

namespace Registry

/-- Whether `cleanup` does anything: three of the six classes override it by `pass`. -/
def expires (r : Registry) : Bool :=
  match r.kind with
  | .finished | .failed | .active => true
  | .queued | .scheduled | .canceled => false

/-- `cleanup`: remove the expired jobs from the registry. -/
def cleanup (r : Registry) (timestamp : Option Int) : Py Unit :=
  if r.expires then do
    let score ← timestampOrNow timestamp
    Prog.write (·.zremrangebyscore r.queue r.kind 0 score)
  else pure ()

def add (r : Registry) (n : JobName) (score : Int) : Py Unit :=
  Prog.write (·.zadd r.queue r.kind n score)

def delete (r : Registry) (n : JobName) : Py Unit := Prog.write (·.zrem r.queue r.kind n)

def exists_ (r : Registry) (n : JobName) : Py Bool :=
  Prog.read fun w => decide (w.inRegistry r.queue r.kind n)

/-- `count`. -/
def count (r : Registry) : Py Nat := do
  r.cleanup none
  Prog.read fun w => (w.registry r.queue r.kind).entries.length

/-- `all_with_timestamps`. -/
def allWithTimestamps (r : Registry) (start stop : Int) : Py (List (Int × JobName)) := do
  r.cleanup none
  Prog.read fun w => (w.registry r.queue r.kind).range start stop

/-- `all`. -/
def all (r : Registry) (start stop : Int) : Py (List JobName) := do
  let res ← r.allWithTimestamps start stop
  pure (res.map Prod.snd)

/-- `get_last_timestamp`, cut down to whole seconds by `int`. -/
def getLastTimestamp (r : Registry) : Py (Option Int) := do
  let res ← r.allWithTimestamps (-1) (-1)
  pure (res.head?.map fun p => currentTimestamp p.1)

/-- `QueuedJobRegistry.compact`: forget the names whose record is gone. -/
def compact (r : Registry) : Py Unit := do
  let jobs ← r.allWithTimestamps 0 (-1)
  Prog.forEach jobs fun p => do
    let found ← Prog.read fun w => w.jobExists p.2
    if found then pure () else r.delete p.2

/-- A datetime with or without an offset, by its instant. -/
inductive Moment where
  | aware (t : Int)
  | naive (t : Int)

/-- The timestamp of a datetime in `ScheduledJobRegistry.schedule`. -/
def Moment.timestamp (env : Env) : Moment → Int
  | .aware t => t
  | .naive t => env.naiveTimestamp t

/-- `ScheduledJobRegistry.schedule`. -/
def schedule (env : Env) (r : Registry) (n : JobName) (t : Moment) : Py Unit := r.add n (t.timestamp env)

/-- `ScheduledJobRegistry.get_jobs_to_schedule`: the first 1000 names that are due. -/
def getJobsToSchedule (r : Registry) (timestamp : Int) : Py (List JobName) :=
  Prog.read fun w =>
    (((w.registry r.queue r.kind).rangeByScore 0 timestamp).take 1000).map Prod.snd

/-- `ActiveJobRegistry.get_job_names_before`. -/
def getJobNamesBefore (r : Registry) (timestamp : Option Int) :
    Py (List (Int × JobName)) := do
  let score ← timestampOrNow timestamp
  Prog.read fun w => (w.registry r.queue r.kind).rangeByScore 0 score

/-! ## Taking a name out of the queued registries -/

/-- The event of a pop from the queue `q`. -/
def poppedFrom (q : QueueName) (n : Option JobName) : List Event :=
  n.toList.map (Event.popped q)

/-- `ZPOPMIN` on the queued registry of `q`. -/
def zpopmin (q : QueueName) : Py (Option JobName) :=
  Prog.command (fun w => w.zpopmin q .queued)
    (fun w => poppedFrom q (w.zpopmin q .queued).1)

/-- `BZPOPMIN` on the queued registries of `qs`, at the moment it is answered or gives up. -/
def bzpopmin (qs : List QueueName) : Py (Option (QueueName × JobName)) :=
  Prog.command (fun w => w.bzpopmin qs)
    (fun w => ((w.bzpopmin qs).1.toList).map (fun p => Event.popped p.1 p.2))

/-- The non-blocking loop of `pop`. -/
def popNonBlocking : List QueueName → Py (Option (QueueName × JobName))
  | [] => pure none
  | q :: qs => do
      match ← zpopmin q with
      | some n => pure (some (q, n))
      | none => popNonBlocking qs

/-- `JobNamesRegistry.pop` on the queued registries of `qs`. -/
def pop (qs : List QueueName) (timeout : Option Int) : Py (Option (QueueName × JobName)) := do
  if timeout = some 0 then throw (.valueError "Indefinite timeout not supported.")
  else if timeout.isSome then
    match ← bzpopmin qs with
    | none => throw .dequeueTimeout
    | some p => pure (some p)
  else popNonBlocking qs

end Registry

/-! ## What reading a registry does to the world -/

namespace Registry

/-- The moment up to which a cleanup at `timestamp` removes entries. -/
def cleanupScore (timestamp : Option Int) (w : World) : Int :=
  match timestamp with
  | none => currentTimestamp w.now
  | some t => if t = 0 then currentTimestamp w.now else t

/-- The moment is its own timestamp: where it is zero, so is the current time. -/
theorem cleanupScore_cleanupScore (timestamp : Option Int) (w : World) :
    cleanupScore (some (cleanupScore timestamp w)) w = cleanupScore timestamp w := by
  cases timestamp with
  | none => exact ite_self _
  | some t => by_cases h : t = 0 <;> simp [cleanupScore, h]

theorem run_timestampOrNow (timestamp : Option Int) (w : World) :
    (timestampOrNow timestamp).run w = ⟨.ok (cleanupScore timestamp w), w, []⟩ := by
  cases timestamp with
  | none => rfl
  | some t => by_cases h : t = 0 <;> simp [timestampOrNow, cleanupScore, h, readTimestamp]

/-- The world after a cleanup. -/
def cleaned (r : Registry) (timestamp : Option Int) (w : World) : World :=
  if r.expires then w.zremrangebyscore r.queue r.kind 0 (cleanupScore timestamp w) else w

@[simp] theorem run_cleanup (r : Registry) (timestamp : Option Int) (w : World) :
    (r.cleanup timestamp).run w = ⟨.ok (), r.cleaned timestamp w, []⟩ := by
  unfold cleanup cleaned
  by_cases h : r.expires = true
  · simp [h, Prog.run_bind, run_timestampOrNow]
  · simp [h]

@[simp] theorem run_add (r : Registry) (n : JobName) (score : Int) (w : World) :
    (r.add n score).run w = ⟨.ok (), w.zadd r.queue r.kind n score, []⟩ := rfl

@[simp] theorem run_delete (r : Registry) (n : JobName) (w : World) :
    (r.delete n).run w = ⟨.ok (), w.zrem r.queue r.kind n, []⟩ := rfl

@[simp] theorem run_exists (r : Registry) (n : JobName) (w : World) :
    (r.exists_ n).run w = ⟨.ok (decide (w.inRegistry r.queue r.kind n)), w, []⟩ := rfl

@[simp] theorem run_count (r : Registry) (w : World) :
    (r.count).run w = ⟨.ok (((r.cleaned none w).registry r.queue r.kind).entries.length),
      r.cleaned none w, []⟩ := by
  simp [count, Prog.run_bind]

@[simp] theorem run_allWithTimestamps (r : Registry) (i j : Int) (w : World) :
    (r.allWithTimestamps i j).run w
      = ⟨.ok (((r.cleaned none w).registry r.queue r.kind).range i j), r.cleaned none w, []⟩ := by
  simp [allWithTimestamps, Prog.run_bind]

@[simp] theorem run_all (r : Registry) (i j : Int) (w : World) :
    (r.all i j).run w
      = ⟨.ok ((((r.cleaned none w).registry r.queue r.kind).range i j).map Prod.snd),
        r.cleaned none w, []⟩ := by
  simp [all, Prog.run_bind]

theorem cleaned_of_not_expires {r : Registry} (h : r.expires = false) (timestamp : Option Int)
    (w : World) : r.cleaned timestamp w = w := by
  simp [cleaned, h]

@[simp] theorem cleaned_now (r : Registry) (t : Option Int) (w : World) :
    (r.cleaned t w).now = w.now := by
  unfold cleaned; split <;> rfl

@[simp] theorem cleaned_jobs (r : Registry) (t : Option Int) (w : World) :
    (r.cleaned t w).jobs = w.jobs := by
  unfold cleaned; split <;> rfl

@[simp] theorem cleaned_tasks (r : Registry) (t : Option Int) (w : World) :
    (r.cleaned t w).tasks = w.tasks := by
  unfold cleaned; split <;> rfl

/-- A cleanup removes the entries of its registry with a score from `0` to its moment, and
nothing else. -/
theorem score_cleaned (r : Registry) (t : Option Int) (w : World) (q : QueueName)
    (k : RegistryKind) (n : JobName) :
    ((r.cleaned t w).registry q k).score n
      = if r.expires = true ∧ q = r.queue ∧ k = r.kind then
          ((w.registry q k).score n).filter (fun s => ¬ (0 ≤ s ∧ s ≤ cleanupScore t w))
        else (w.registry q k).score n := by
  unfold cleaned
  by_cases h : r.expires = true
  · rw [if_pos h, World.score_zremrangebyscore]
    simp [h]
  · simp [h]

theorem inRegistry_of_cleaned {r : Registry} {t : Option Int} {w : World} {q : QueueName}
    {k : RegistryKind} {n : JobName} (h : (r.cleaned t w).inRegistry q k n) :
    w.inRegistry q k n := by
  unfold cleaned at h
  split at h
  · exact World.inRegistry_of_zremrangebyscore h
  · exact h

@[simp] theorem run_getLastTimestamp (r : Registry) (w : World) :
    (r.getLastTimestamp).run w
      = ⟨.ok (((((r.cleaned none w).registry r.queue r.kind).range (-1) (-1)).head?).map
          fun p => currentTimestamp p.1), r.cleaned none w, []⟩ := by
  simp [getLastTimestamp, Prog.run_bind]

end Registry

end DailyScheduler
