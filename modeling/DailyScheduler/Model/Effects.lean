import DailyScheduler.Model.Worker

set_option autoImplicit false

/-! # What the operations do when they run alone

One lemma for each operation on jobs and queues: the outcome of its run as a function of the
world it starts in.
-/

namespace DailyScheduler

open AtomicProg

/-! ## Attributes that do not matter to the encoding -/

@[simp] theorem JobModel.setStatus_serializable (j : JobModel) (s : JobStatus) :
    (j.setStatus s).serializable = j.serializable := rfl
@[simp] theorem JobModel.setStartedAt_serializable (j : JobModel) (t : Option Int) :
    (j.setStartedAt t).serializable = j.serializable := rfl
@[simp] theorem JobModel.setEndedAt_serializable (j : JobModel) (t : Option Int) :
    (j.setEndedAt t).serializable = j.serializable := rfl
@[simp] theorem JobModel.setLastHeartbeat_serializable (j : JobModel) (t : Option Int) :
    (j.setLastHeartbeat t).serializable = j.serializable := rfl
@[simp] theorem JobModel.setWorkerName_serializable (j : JobModel) (n : Option WorkerName) :
    (j.setWorkerName n).serializable = j.serializable := rfl
@[simp] theorem JobModel.saved_serializable (j : JobModel) :
    j.saved.serializable = j.serializable := rfl
@[simp] theorem Queue.enqueuedModel_successTtl (j : JobModel) (t : Int) :
    (Queue.enqueuedModel j t).successTtl = j.successTtl := by
  simp only [Queue.enqueuedModel, JobModel.setEnqueuedAt, JobModel.setStatus, JobModel.setEndedAt,
    JobModel.setStartedAt]

@[simp] theorem Queue.enqueuedModel_funcName (j : JobModel) (t : Int) :
    (Queue.enqueuedModel j t).funcName = j.funcName := by
  simp only [Queue.enqueuedModel, JobModel.setEnqueuedAt, JobModel.setStatus, JobModel.setEndedAt,
    JobModel.setStartedAt]

@[simp] theorem Queue.enqueuedModel_serializable (j : JobModel) (t : Int) :
    (Queue.enqueuedModel j t).serializable = j.serializable := rfl

/-- `compact` keeps what taking out a name without a record keeps. -/
theorem Registry.exec_compact_keeps {q : QueueName} {I : World → Prop}
    (h : ∀ w n, I w → w.jobExists n = false → I (w.zrem q .queued n)) {w : World} (hw : I w) :
    I ((Registry.mk q .queued).compact.exec w) := by
  have hread : (Registry.mk q .queued).cleaned none w = w :=
    Registry.cleaned_of_not_expires rfl none w
  refine Prog.exec_bind_keeps ?_ fun jobs _ => ?_
  · rw [Prog.exec, Registry.run_allWithTimestamps, hread]
    exact hw
  · rw [Prog.exec_eq_of_run (Registry.run_allWithTimestamps _ _ _ _), hread]
    refine Prog.exec_forEach_keeps (fun p _ w' hw' => ?_) hw
    rw [Prog.exec_bind]
    simp only [Prog.run_read]
    cases hf : w'.jobExists p.2 with
    | true => exact hw'
    | false => exact h w' p.2 hw' hf

/-! ## Methods whose object or value nobody looks at -/

theorem After.exec_get {α : Type} (p : Py (After α)) (w : World) :
    (After.get p).exec w = p.exec w := by
  refine Prog.exec_bind_of_silent fun r w => ?_
  obtain ⟨j, x | a⟩ := r <;> rfl

theorem After.run_get_ok {α : Type} {p : Py (After α)} {w w' : World} {j : JobModel} {a : α}
    {t : List Event} (h : p.run w = ⟨.ok (j, .ok a), w', t⟩) :
    (After.get p).run w = ⟨.ok (j, a), w', t⟩ := by
  simp [After.get, Prog.run_bind, h]

theorem After.run_get_error {α : Type} {p : Py (After α)} {w w' : World} {j : JobModel}
    {x : PyError} {t : List Event} (h : p.run w = ⟨.ok (j, .error x), w', t⟩) :
    (After.get p).run w = ⟨.error x, w', t⟩ := by
  simp [After.get, Prog.run_bind, h]

theorem trace_ignore {α : Type} (p : Py α) (w : World) :
    ((p >>= fun _ => (pure () : Py Unit)).run w).trace = (p.run w).trace := by
  rw [Prog.run_bind]
  rcases p.run w with ⟨_ | _, _, _⟩ <;> simp

theorem exec_ignore {α : Type} (p : Py α) (w : World) :
    (p >>= fun _ => (pure () : Py Unit)).exec w = p.exec w :=
  Prog.exec_bind_of_silent fun _ _ => rfl

/-! ## Reading the clock -/

@[simp] theorem run_utcnow (w : World) : utcnow.run w = ⟨.ok w.now, w, []⟩ := rfl

@[simp] theorem run_readTimestamp (w : World) :
    readTimestamp.run w = ⟨.ok (currentTimestamp w.now), w, []⟩ := rfl

attribute [simp] Registry.run_timestampOrNow

namespace JobModel

@[simp] theorem run_get (env : Env) (n : JobName) (w : World) :
    (get env n).run w = ⟨.ok (fetch env w n), w, []⟩ := rfl

@[simp] theorem run_getMany (env : Env) (names : List JobName) (w : World) :
    (getMany env names).run w
      = ⟨deserializeAll env (names.map fun n => (n, w.jobs.find? n)), w, []⟩ := by
  simp only [getMany, Prog.run_bind, Prog.run_read, Prog.Outcome.andThen_ok, List.nil_append]
  cases deserializeAll env (names.map fun n => (n, w.jobs.find? n)) <;> rfl

/-- One more object in front of those that were loaded. -/
theorem map_cons_eq_ok {α : Type} {x : α} {r : Except PyError (List α)} {l : List α}
    (h : r.map (x :: ·) = .ok l) : ∃ l', r = .ok l' ∧ l = x :: l' := by
  cases r with
  | error e => cases h
  | ok l' =>
      cases h
      exact ⟨l', rfl, rfl⟩

theorem deserializeAll_mem {env : Env} {l : List (JobName × Option JobHash)}
    {js : List (Option JobModel)} (h : deserializeAll env l = .ok js) {j : JobModel}
    (hj : some j ∈ js) :
    ∃ n v, (n, some v) ∈ l ∧ deserialize env.config n v = some j := by
  induction l generalizing js with
  | nil =>
      cases h
      cases hj
  | cons p l ih =>
      obtain ⟨n, _ | v⟩ := p
      · -- no record: the name contributes `None`
        obtain ⟨js', hjs', rfl⟩ := map_cons_eq_ok h
        rcases List.mem_cons.1 hj with hj | hj
        · cases hj
        · obtain ⟨n', v', hmem, hd⟩ := ih hjs' hj
          exact ⟨n', v', List.mem_cons_of_mem _ hmem, hd⟩
      · unfold deserializeAll at h
        cases hd : deserialize env.config n v with
        | none => simp [hd] at h
        | some j' =>
            simp only [hd] at h
            obtain ⟨js', hjs', rfl⟩ := map_cons_eq_ok h
            rcases List.mem_cons.1 hj with hj | hj
            · cases hj
              exact ⟨n, v, List.mem_cons_self, hd⟩
            · obtain ⟨n', v', hmem, hd'⟩ := ih hjs' hj
              exact ⟨n', v', List.mem_cons_of_mem _ hmem, hd'⟩

/-- `get_many` raises only at a record that does not deserialize. -/
theorem deserializeAll_ok {env : Env} {w : World} {names : List JobName}
    (h : ∀ n ∈ names, w.jobs.find? n = none ∨ ∃ j, fetch env w n = some j) :
    ∃ js, deserializeAll env (names.map fun n => (n, w.jobs.find? n)) = .ok js := by
  induction names with
  | nil => exact ⟨[], rfl⟩
  | cons m l ih =>
      obtain ⟨js, hjs⟩ := ih fun n hn => h n (List.mem_cons_of_mem m hn)
      rcases h m List.mem_cons_self with hv | ⟨j, hj⟩
      · refine ⟨none :: js, ?_⟩
        simp only [List.map_cons, hv, deserializeAll, hjs]
        rfl
      · obtain ⟨v, hv, hd⟩ := Option.bind_eq_some_iff.1 hj
        refine ⟨some j :: js, ?_⟩
        simp only [List.map_cons, hv, deserializeAll, hd, hjs]
        rfl

/-- What `get_many` loads when it does not raise: `None` stands only for a missing record. -/
theorem deserializeAll_inv {env : Env} {w : World} {names : List JobName}
    {js : List (Option JobModel)}
    (h : deserializeAll env (names.map fun n => (n, w.jobs.find? n)) = .ok js) :
    js = names.map (fetch env w) ∧
      ∀ n ∈ names, w.jobs.find? n = none ∨ ∃ j, fetch env w n = some j := by
  induction names generalizing js with
  | nil =>
      cases h
      exact ⟨rfl, fun n hn => by cases hn⟩
  | cons m l ih =>
      rw [List.map_cons] at h
      unfold deserializeAll at h
      cases hv : w.jobs.find? m with
      | none =>
          have hm : fetch env w m = none := by rw [fetch, hv]; rfl
          rw [hv] at h
          obtain ⟨js', hjs', rfl⟩ := map_cons_eq_ok h
          obtain ⟨rfl, hall⟩ := ih hjs'
          exact ⟨by rw [List.map_cons, hm], List.forall_mem_cons.2 ⟨.inl hv, hall⟩⟩
      | some v =>
          rw [hv] at h
          cases hd : deserialize env.config m v with
          | none => simp [hd] at h
          | some j =>
              have hm : fetch env w m = some j := by rw [fetch, hv]; exact hd
              simp only [hd] at h
              obtain ⟨js', hjs', rfl⟩ := map_cons_eq_ok h
              obtain ⟨rfl, hall⟩ := ih hjs'
              exact ⟨by rw [List.map_cons, hm], List.forall_mem_cons.2 ⟨.inr ⟨j, hm⟩, hall⟩⟩

/-- `get_many` returns the stored objects of some of the names. -/
theorem getMany_mem {env : Env} {names : List JobName} {w : World}
    {js : List (Option JobModel)} (h : ((getMany env names).run w).val = .ok js) {j : JobModel}
    (hj : some j ∈ js) : j.name ∈ names ∧ fetch env w j.name = some j := by
  rw [run_getMany] at h
  obtain ⟨n, v, hmem, hd⟩ := deserializeAll_mem h hj
  obtain ⟨n', hn', heq⟩ := List.mem_map.1 hmem
  simp only [Prod.mk.injEq] at heq
  obtain ⟨rfl, hv⟩ := heq
  have hname : j.name = n' := (loadedFrom_of_deserialize hd).name
  rw [hname]
  exact ⟨hn', by rw [fetch, hv]; exact hd⟩

theorem run_save {j : JobModel} (h : j.serializable = true) (sa : Bool) (w : World) :
    (j.save sa).run w = ⟨.ok (j.saved, .ok ()), w.saveJob j sa, []⟩ := by
  simp [save, h, Prog.run_bind]

theorem run_save_error {j : JobModel} (h : j.serializable = false) (sa : Bool) (w : World) :
    (j.save sa).run w = ⟨.ok (j, .error (.typeError "not JSON serializable")), w, []⟩ := by
  simp [save, h]

theorem run_get_save (j : JobModel) (sa : Bool) (w : World) :
    (After.get (j.save sa)).run w = if j.serializable then ⟨.ok (j.saved, ()), w.saveJob j sa, []⟩
      else ⟨.error (.typeError "not JSON serializable"), w, []⟩ := by
  rw [get_save]
  split
  · simp [Prog.run_bind]
  · simp

/-- A save of an object that cannot be encoded changes nothing. -/
theorem exec_save (j : JobModel) (sa : Bool) (w : World) :
    (j.save sa).exec w = if j.serializable then w.saveJob j sa else w := by
  cases h : j.serializable with
  | true => exact Prog.exec_eq_of_run (run_save h sa w)
  | false => exact Prog.exec_eq_of_run (run_save_error h sa w)

@[simp] theorem registry_exec_save (j : JobModel) (sa : Bool) (w : World) :
    ((j.save sa).exec w).registry = w.registry := by
  rw [exec_save]
  split <;> rfl

@[simp] theorem run_persist (j : JobModel) (w : World) :
    j.persist.run w = ⟨.ok (), w.persistJob j.name, []⟩ := rfl

/-- The object `prepare_for_execution` saves. -/
def prepared (j : JobModel) (name : WorkerName) (now : Int) : JobModel :=
  (((j.setWorkerName (some name)).setLastHeartbeat (some now)).setStartedAt
    (some now)).setStatus .started

theorem prepareForExecution_eq (j : JobModel) (name : WorkerName) (r : Registry) :
    j.prepareForExecution name r = (do
      let now ← utcnow
      r.add (j.prepared name now).name (now + secs (j.prepared name now).timeout)
      (j.prepared name now).save false) := rfl

@[simp] theorem prepared_name (j : JobModel) (name : WorkerName) (now : Int) :
    (j.prepared name now).name = j.name := rfl

@[simp] theorem prepared_status (j : JobModel) (name : WorkerName) (now : Int) :
    (j.prepared name now).status = .started := rfl

@[simp] theorem prepared_successTtl (j : JobModel) (name : WorkerName) (now : Int) :
    (j.prepared name now).successTtl = j.successTtl := by
  simp only [prepared, setStatus, setStartedAt, setLastHeartbeat, setWorkerName]

@[simp] theorem prepared_funcName (j : JobModel) (name : WorkerName) (now : Int) :
    (j.prepared name now).funcName = j.funcName := by
  simp only [prepared, setStatus, setStartedAt, setLastHeartbeat, setWorkerName]

@[simp] theorem prepared_serializable (j : JobModel) (name : WorkerName) (now : Int) :
    (j.prepared name now).serializable = j.serializable := rfl

/-- The world after the registration of `prepare_for_execution`. -/
def registered (j : JobModel) (r : Registry) (w : World) : World :=
  w.zadd r.queue r.kind j.name (w.now + secs j.timeout)

theorem run_prepareForExecution (j : JobModel) (name : WorkerName) (r : Registry) (w : World) :
    (j.prepareForExecution name r).run w
      = ((j.prepared name w.now).save false).run (j.registered r w) := by
  simp only [prepareForExecution, Prog.run_bind, run_utcnow, Prog.Outcome.andThen_ok,
    Registry.run_add, List.nil_append]
  rfl

theorem exec_prepareForExecution (j : JobModel) (name : WorkerName) (r : Registry) (w : World) :
    (j.prepareForExecution name r).exec w
      = ((j.prepared name w.now).save false).exec (j.registered r w) := by
  rw [Prog.exec, run_prepareForExecution]
  rfl

/-- The object `after_execution` saves. -/
def ended (j : JobModel) (status : JobStatus) (now : Int) : JobModel :=
  ((j.setStatus status).setEndedAt (some now)).setLastHeartbeat (some now)

@[simp] theorem ended_name (j : JobModel) (status : JobStatus) (now : Int) :
    (j.ended status now).name = j.name := rfl

@[simp] theorem ended_successTtl (j : JobModel) (status : JobStatus) (now : Int) :
    (j.ended status now).successTtl = j.successTtl := rfl

@[simp] theorem ended_serializable (j : JobModel) (status : JobStatus) (now : Int) :
    (j.ended status now).serializable = j.serializable := rfl

/-- The world after the move between registries of `after_execution`. -/
def moved (j : JobModel) (ttl : Int) (prev new : Registry) (w : World) : World :=
  let w := w.zrem prev.queue prev.kind j.name
  if ttl = 0 then w
  else w.zadd new.queue new.kind j.name (currentTimestamp w.now + secs ttl)

theorem run_addFor (r : Registry) (n : JobName) (ttl : Int) (w : World) :
    (addFor r n ttl).run w = ⟨.ok (), if ttl = 0 then w
      else w.zadd r.queue r.kind n (currentTimestamp w.now + secs ttl), []⟩ := by
  unfold addFor
  split
  · simp
  · simp [Prog.run_bind]

theorem run_afterExecution (j : JobModel) (ttl : Int) (status : JobStatus)
    (prev new : Registry) (w : World) :
    (j.afterExecution ttl status prev new).run w
      = ((j.ended status w.now).save false).run (j.moved ttl prev new w) := by
  simp only [afterExecution, Prog.run_bind, run_utcnow, Prog.Outcome.andThen_ok,
    Registry.run_delete, run_addFor, List.nil_append]
  rfl

@[simp] theorem moved_now (j : JobModel) (ttl : Int) (prev new : Registry) (w : World) :
    (j.moved ttl prev new w).now = w.now := by
  unfold moved; dsimp only; split <;> rfl

@[simp] theorem moved_jobs (j : JobModel) (ttl : Int) (prev new : Registry) (w : World) :
    (j.moved ttl prev new w).jobs = w.jobs := by
  unfold moved; dsimp only; split <;> rfl

@[simp] theorem moved_tasks (j : JobModel) (ttl : Int) (prev new : Registry) (w : World) :
    (j.moved ttl prev new w).tasks = w.tasks := by
  unfold moved; dsimp only; split <;> rfl

/-- The world after `expire`. -/
def expired (j : JobModel) (ttl : Int) (w : World) : World :=
  if ttl = 0 then w.deleteJob j.name
  else if ttl > 0 then w.expireJob j.name (w.now + secs ttl) else w

/-- Only the name of the object matters. -/
theorem expired_congr {j j' : JobModel} (h : j.name = j'.name) (ttl : Int) (w : World) :
    j.expired ttl w = j'.expired ttl w := by
  simp only [expired, h]

theorem run_expire (j : JobModel) (ttl : Int) (w : World) :
    (j.expire ttl).run w
      = ⟨.ok (if ttl = 0 then { j with saveAll := true } else j), j.expired ttl w, []⟩ := by
  unfold expire expired delete
  split
  · simp [Prog.run_bind]
  · split
    · simp [Prog.run_bind]
    · simp

end JobModel

namespace JobModel

/-! ## Creating -/

/-- The name `create` gives a job. -/
def nameFor (a : JobArgs) (queueName : QueueName) (now : Int) : JobName :=
  match a.name with
  | some n => n
  | none => defaultName queueName a.scheduledTaskId now

/-- The object `create` saves. -/
def fresh (env : Env) (a : JobArgs) (queueName : QueueName) (status : JobStatus) (now : Int) :
    JobModel :=
  new env.config a queueName (nameFor a queueName now) status now

@[simp] theorem fresh_name (env : Env) (a : JobArgs) (queueName : QueueName)
    (status : JobStatus) (now : Int) :
    (fresh env a queueName status now).name = nameFor a queueName now := rfl

@[simp] theorem fresh_saveAll (env : Env) (a : JobArgs) (queueName : QueueName)
    (status : JobStatus) (now : Int) : (fresh env a queueName status now).saveAll = true := rfl

/-- What `create` raises, if it does. -/
def createError (env : Env) (a : JobArgs) (w : World) : Option PyError :=
  if timeoutOrDefault env.config a.timeout = 0 then
    some (.valueError "0 timeout is not allowed. Use -1 for infinite timeout")
  else if (a.name.any fun n => w.jobExists n) then some (.valueError (a.name.getD ""))
  else if a.args.encodes && a.kwargs.encodes && a.metadata.encodes then none
  else some (.typeError "not JSON serializable")

theorem run_create (env : Env) (a : JobArgs) (queueName : QueueName) (status : JobStatus)
    (w : World) :
    (create env a queueName status).run w = match createError env a w with
      | some x => ⟨.error x, w, []⟩
      | none => ⟨.ok (fresh env a queueName status w.now).saved,
          w.saveJob (fresh env a queueName status w.now) false,
          [.created (nameFor a queueName w.now)]⟩ := by
  have hser : (fresh env a queueName status w.now).serializable
      = (a.args.encodes && a.kwargs.encodes && a.metadata.encodes) := rfl
  unfold create createError
  by_cases ht : timeoutOrDefault env.config a.timeout = 0
  · simp [ht]
  · rw [if_neg ht, if_neg ht]
    cases hn : a.name with
    | none =>
        have hf : fresh env a queueName status w.now = new env.config a queueName
            (defaultName queueName a.scheduledTaskId w.now) status w.now := by
          simp [fresh, nameFor, hn]
        rw [hf] at hser ⊢
        simp only [pickName, Prog.run_bind, run_utcnow, Prog.Outcome.andThen_ok, Prog.pure_eq,
          Prog.run_ret, run_get_save, hser, nameFor, hn, Option.any_none]
        cases (a.args.encodes && a.kwargs.encodes && a.metadata.encodes) <;> simp [Prog.run_bind]
    | some n =>
        have hf : fresh env a queueName status w.now
            = new env.config a queueName n status w.now := by
          simp [fresh, nameFor, hn]
        rw [hf] at hser ⊢
        cases hx : w.jobExists n with
        | true => simp [pickName, exists_, Prog.run_bind, hx]
        | false =>
            simp only [pickName, exists_, Prog.run_bind, Prog.run_read, hx, run_utcnow,
              Prog.Outcome.andThen_ok, Prog.pure_eq, Prog.run_ret, run_get_save, hser, nameFor,
              hn, Option.any_some, Bool.false_eq_true, if_false]
            cases (a.args.encodes && a.kwargs.encodes && a.metadata.encodes) <;> simp [Prog.run_bind]

/-- A job that is created can be encoded. -/
theorem serializable_of_createError {env : Env} {a : JobArgs} {w : World}
    (h : createError env a w = none) (queueName : QueueName) (status : JobStatus) (now : Int) :
    (fresh env a queueName status now).serializable = true := by
  show (a.args.encodes && a.kwargs.encodes && a.metadata.encodes) = true
  unfold createError at h
  split at h
  · cases h
  · split at h
    · cases h
    · split at h
      · assumption
      · cases h

end JobModel

/-! ## Results -/

/-- The world after `Result.create`. -/
def resultWorld (n : JobName) (r : Result PyValue) (w : World) : World :=
  if r.ttl = 0 then w.deleteResults n
  else if r.returnValue.encodes then w.xadd (r.map PyValue.stored) else w

/-- The entry `Result.create` writes. -/
def resultOf (n : JobName) (name : Option WorkerName) (type : ResultType) (ttl : Int)
    (v : PyValue) (s : Option String) (now : Int) : Result PyValue where
  parent := n
  type := type
  workerName := name.getD "unknown_worker"
  ttl := ttl
  createdAt := now
  returnValue := v
  excString := s

theorem run_resultCreate (n : JobName) (name : Option WorkerName) (type : ResultType)
    (ttl : Int) (v : PyValue) (s : Option String) (w : World) :
    (Result.create n name type ttl v s).run w
      = ⟨if ttl = 0 ∨ v.encodes = true then .ok ()
          else .error (.typeError "not JSON serializable"),
        resultWorld n (resultOf n name type ttl v s w.now) w, []⟩ := by
  simp only [Result.create, Prog.run_bind, run_utcnow, Prog.Outcome.andThen_ok, Result.save,
    resultWorld, resultOf, List.nil_append]
  by_cases h : ttl = 0
  · simp [h]
  · by_cases hv : v.encodes = true <;> simp [h, hv]

section Frames

variable (n : JobName) (r : Result PyValue) (w : World)

@[simp] theorem resultWorld_now : (resultWorld n r w).now = w.now := by
  unfold resultWorld; split <;> [rfl; (split <;> rfl)]
@[simp] theorem resultWorld_jobs : (resultWorld n r w).jobs = w.jobs := by
  unfold resultWorld; split <;> [rfl; (split <;> rfl)]
@[simp] theorem resultWorld_registry : (resultWorld n r w).registry = w.registry := by
  unfold resultWorld; split <;> [rfl; (split <;> rfl)]
@[simp] theorem resultWorld_tasks : (resultWorld n r w).tasks = w.tasks := by
  unfold resultWorld; split <;> [rfl; (split <;> rfl)]

end Frames

/-! ## Enqueuing -/

namespace Queue

/-- The score `enqueue_job` queues a job with. -/
def scoreFor (q : Queue) (atFront : Bool) (w : World) : Int :=
  if atFront then currentTimestamp w.now
  else Registry.cleanupScore
    ((((w.registry q.name .queued).range (-1) (-1)).head?).map fun p => currentTimestamp p.1) w

theorem run_enqueueScore (q : Queue) (atFront : Bool) (w : World) :
    (q.enqueueScore atFront).run w = ⟨.ok (q.scoreFor atFront w), w, []⟩ := by
  unfold enqueueScore scoreFor
  have hr : q.queuedJobRegistry.cleaned none w = w := Registry.cleaned_of_not_expires rfl _ _
  split
  · rfl
  · simp only [Prog.run_bind, Registry.run_getLastTimestamp, Prog.Outcome.andThen_ok,
      Registry.run_timestampOrNow, hr, List.nil_append]
    rfl

/-- The world after `enqueue_job` on an asynchronous queue. -/
def enqueuedWorld (q : Queue) (job : JobModel) (atFront : Bool) (w : World) : World :=
  let w' := w.saveJob (enqueuedModel job w.now) false
  (w'.zrem q.name .scheduled job.name).zadd q.name .queued job.name (q.scoreFor atFront w')

theorem run_enqueueJob (env : Env) {q : Queue} (hq : q.isAsync = true) {job : JobModel}
    (hs : job.serializable = true) (atFront : Bool) (w : World) :
    (q.enqueueJob env job atFront).run w
      = ⟨.ok (enqueuedModel job w.now).saved, q.enqueuedWorld job atFront w,
        [.enqueued q.name job.name]⟩ := by
  simp [enqueueJob, push, Prog.run_bind, JobModel.run_get_save, run_enqueueScore, hq, hs,
    enqueuedWorld]

theorem run_enqueueJob_error (env : Env) (q : Queue) {job : JobModel}
    (hs : job.serializable = false) (atFront : Bool) (w : World) :
    (q.enqueueJob env job atFront).run w
      = ⟨.error (.typeError "not JSON serializable"), w, []⟩ := by
  simp [enqueueJob, Prog.run_bind, JobModel.run_get_save, hs]

/-- `_enqueue_multiple_jobs` keeps what saving and enqueuing each of the loaded jobs keeps. -/
theorem exec_enqueueMultipleJobs_keeps {env : Env} {q : Queue} {names : List JobName}
    {atFront : Bool} {w : World} {I : World → Prop} (hw : I w)
    (h : ∀ j, j.name ∈ names → JobModel.fetch env w j.name = some j → j.serializable = true →
      ∀ w', I w' → I (w'.saveJob j false) ∧
        I ((q.enqueueJob env j.saved atFront).exec (w'.saveJob j false))) :
    I ((enqueueMultipleJobs env q names atFront).exec w) := by
  have hget : (JobModel.getMany env names).exec w = w :=
    Prog.exec_eq_of_run (JobModel.run_getMany env names w)
  refine Prog.exec_bind_keeps (hget.symm ▸ hw) fun jobs hjobs => ?_
  refine Prog.exec_forEach_keeps (fun job hjob w' hw' => ?_) (hget.symm ▸ hw)
  cases job with
  | none => exact hw'
  | some j =>
      obtain ⟨hname, hfetch⟩ := JobModel.getMany_mem hjobs hjob
      dsimp only
      rw [Prog.exec_bind, JobModel.run_get_save, After.exec_get, JobModel.exec_save]
      cases hs : j.serializable with
      | false => exact hw'
      | true =>
          simp only [if_true]
          rw [exec_ignore]
          exact (h j hname hfetch hs w' hw').2

/-- The world after `placeJob` at a time. -/
def scheduledWorld (q : Queue) (job : JobModel) (t : Int) (w : World) : World :=
  (w.saveJob job false).zadd q.name .scheduled job.name t

theorem run_placeJob_datetime (env : Env) (q : Queue) {job : JobModel}
    (hs : job.serializable = true) (t : Registry.Moment) (atFront : Bool) (w : World) :
    (q.placeJob env job (.datetime t) atFront).run w
      = ⟨.ok job.saved, q.scheduledWorld job (t.timestamp env) w, []⟩ := by
  simp [placeJob, Prog.run_bind, JobModel.run_get_save, hs, scheduledWorld, scheduledJobRegistry,
    Registry.schedule]

/-- The status `create_and_enqueue_job` creates a job with. -/
def statusFor : When → JobStatus
  | .none => .queued
  | _ => .scheduled

theorem run_createAndEnqueueJob (env : Env) (q : Queue) (a : JobArgs) (when' : When)
    (atFront : Bool) (w : World) :
    (q.createAndEnqueueJob env a when' atFront).run w
      = match JobModel.createError env a w with
        | some x => ⟨.error x, w, []⟩
        | none =>
            let r := (q.placeJob env (JobModel.fresh env a q.name (statusFor when') w.now).saved
              when' atFront).run (w.saveJob (JobModel.fresh env a q.name (statusFor when') w.now)
                false)
            ⟨r.val, r.state, .created (JobModel.nameFor a q.name w.now) :: r.trace⟩ := by
  have key : ∀ status, (JobModel.create env a q.name status >>= fun job =>
      q.placeJob env job when' atFront).run w = match JobModel.createError env a w with
        | some x => ⟨.error x, w, []⟩
        | none =>
            let r := (q.placeJob env (JobModel.fresh env a q.name status w.now).saved when'
              atFront).run (w.saveJob (JobModel.fresh env a q.name status w.now) false)
            ⟨r.val, r.state, .created (JobModel.nameFor a q.name w.now) :: r.trace⟩ := by
    intro status
    rw [Prog.run_bind, JobModel.run_create]
    cases JobModel.createError env a w <;> rfl
  cases when' with
  | none => exact key .queued
  | datetime t => exact key .scheduled
  | other => exact key .scheduled

theorem exec_createAndEnqueueJob (env : Env) (q : Queue) (a : JobArgs) (when' : When)
    (atFront : Bool) (w : World) :
    (q.createAndEnqueueJob env a when' atFront).exec w
      = match JobModel.createError env a w with
        | some _ => w
        | none => (q.placeJob env (JobModel.fresh env a q.name (statusFor when') w.now).saved when'
            atFront).exec (w.saveJob (JobModel.fresh env a q.name (statusFor when') w.now) false) := by
  rw [Prog.exec, run_createAndEnqueueJob]
  cases JobModel.createError env a w <;> rfl

/-! ## Ending an execution -/

/-- The world after `job_handle_success` or `job_handle_failure`, as far as the object could be
saved. -/
def endedWorld (q : Queue) (k : RegistryKind) (job : JobModel) (ttl : Int)
    (status : JobStatus) (w : World) : World :=
  (job.moved ttl q.activeJobRegistry ⟨q.name, k⟩ w).saveJob (job.ended status w.now) false

theorem run_jobHandleSuccess (q : Queue) {job : JobModel} (hs : job.serializable = true)
    (v : PyValue) (ttl resultTtl : Int) (w : World) :
    (q.jobHandleSuccess job v ttl resultTtl).run w
      = ⟨.ok ((job.ended .finished w.now).saved,
          if resultTtl = 0 ∨ v.encodes = true then .ok ()
          else .error (.typeError "not JSON serializable")),
        resultWorld job.name (resultOf job.name job.workerName .successful resultTtl v none w.now)
          (q.endedWorld .finished job ttl .finished w), []⟩ := by
  have hs' : (job.ended .finished w.now).serializable = true := hs
  simp [jobHandleSuccess, After.next, After.andThen, Prog.run_bind, JobModel.run_afterExecution,
    JobModel.run_save hs', run_resultCreate, endedWorld, finishedJobRegistry]
  rfl

theorem run_jobHandleSuccess_error (q : Queue) {job : JobModel} (hs : job.serializable = false)
    (v : PyValue) (ttl resultTtl : Int) (w : World) :
    (q.jobHandleSuccess job v ttl resultTtl).run w
      = ⟨.ok (job.ended .finished w.now, .error (.typeError "not JSON serializable")),
        job.moved ttl q.activeJobRegistry q.finishedJobRegistry w, []⟩ := by
  have hs' : (job.ended .finished w.now).serializable = false := hs
  simp [jobHandleSuccess, After.next, After.andThen, Prog.run_bind, JobModel.run_afterExecution,
    JobModel.run_save_error hs']

theorem run_jobHandleFailure (env : Env) (q : Queue) (status : JobStatus) {job : JobModel}
    (hs : job.serializable = true) (s : String) (w : World) :
    (q.jobHandleFailure env status job s).run w
      = ⟨.ok ((job.ended status w.now).saved, .ok ()),
        resultWorld job.name (resultOf job.name job.workerName .failed
          env.config.DEFAULT_FAILURE_TTL .none (some s) w.now)
          (q.endedWorld .failed job env.config.DEFAULT_FAILURE_TTL status w), []⟩ := by
  have hs' : (job.ended status w.now).serializable = true := hs
  have hnone : PyValue.none.encodes = true := rfl
  simp [jobHandleFailure, After.next, After.andThen, Prog.run_bind, JobModel.run_afterExecution,
    JobModel.run_save hs', run_resultCreate, endedWorld, failedJobRegistry, hnone]
  rfl

theorem run_jobHandleFailure_error (env : Env) (q : Queue) (status : JobStatus) {job : JobModel}
    (hs : job.serializable = false) (s : String) (w : World) :
    (q.jobHandleFailure env status job s).run w
      = ⟨.ok (job.ended status w.now, .error (.typeError "not JSON serializable")),
        job.moved env.config.DEFAULT_FAILURE_TTL q.activeJobRegistry q.failedJobRegistry w, []⟩ := by
  have hs' : (job.ended status w.now).serializable = false := hs
  simp [jobHandleFailure, After.next, After.andThen, Prog.run_bind, JobModel.run_afterExecution,
    JobModel.run_save_error hs']

/-- Whatever can be saved, the registries are moved. -/
theorem registry_exec_jobHandleSuccess (q : Queue) (job : JobModel) (v : PyValue)
    (ttl resultTtl : Int) (w : World) :
    ((q.jobHandleSuccess job v ttl resultTtl).exec w).registry
      = (job.moved ttl q.activeJobRegistry q.finishedJobRegistry w).registry := by
  cases hs : job.serializable with
  | true => simp [Prog.exec, run_jobHandleSuccess q hs, endedWorld, finishedJobRegistry]
  | false => simp [Prog.exec, run_jobHandleSuccess_error q hs]

theorem registry_exec_jobHandleFailure (env : Env) (q : Queue) (status : JobStatus)
    (job : JobModel) (s : String) (w : World) :
    ((q.jobHandleFailure env status job s).exec w).registry
      = (job.moved env.config.DEFAULT_FAILURE_TTL q.activeJobRegistry
          q.failedJobRegistry w).registry := by
  cases hs : job.serializable with
  | true => simp [Prog.exec, run_jobHandleFailure env q status hs, endedWorld, failedJobRegistry]
  | false => simp [Prog.exec, run_jobHandleFailure_error env q status hs]

/-! ## Canceling and deleting -/

/-- The world after `cancel_job`. -/
def canceledWorld (env : Env) (q : Queue) (n : JobName) (job : JobModel) (w : World) : World :=
  let w' := q.removeFromRegistries n (w.hsetStatus job.name (cancelStatus job))
  if cancelStatus job = .canceled then w'.zadd q.name .canceled n 0
  else w'.zadd q.name .finished n
    (currentTimestamp w.now + secs env.config.DEFAULT_FAILURE_TTL)

@[simp] theorem removeFromRegistries_now (q : Queue) (n : JobName) (w : World) :
    (q.removeFromRegistries n w).now = w.now := rfl
@[simp] theorem removeFromRegistries_jobs (q : Queue) (n : JobName) (w : World) :
    (q.removeFromRegistries n w).jobs = w.jobs := rfl
@[simp] theorem removeFromRegistries_tasks (q : Queue) (n : JobName) (w : World) :
    (q.removeFromRegistries n w).tasks = w.tasks := rfl

@[simp] theorem removeFromAll_jobs (q : Queue) (n : JobName) (w : World) :
    (q.removeFromAll n w).jobs = w.jobs := by
  rw [removeFromAll, World.zrem_jobs, removeFromRegistries_jobs]

/-- `_remove_from_registries` does not look at the failed registry. -/
theorem inRegistry_removeFromRegistries (q : Queue) (m n : JobName) (w : World) (q' : QueueName)
    (k : RegistryKind) : (q.removeFromRegistries m w).inRegistry q' k n
      ↔ w.inRegistry q' k n ∧ ¬ (q' = q.name ∧ k ≠ .failed ∧ n = m) := by
  simp only [removeFromRegistries, World.inRegistry_zrem]
  cases k <;> simp <;> tauto

theorem exec_cancelJob (env : Env) (q : Queue) (n : JobName) (w : World) :
    (q.cancelJob env n).exec w = match JobModel.fetch env w n with
      | none => w
      | some job => if job.status = .canceled then w else q.canceledWorld env n job w := by
  simp only [Prog.exec, cancelJob, Prog.run_bind, JobModel.run_get, Prog.Outcome.andThen_ok]
  cases JobModel.fetch env w n with
  | none => rfl
  | some job =>
      by_cases hc : job.status = .canceled
      · simp [hc]
      · by_cases hs : cancelStatus job = .canceled
        · simp [hc, hs, Prog.run_bind, canceledWorld, canceledJobRegistry]
        · simp [hc, hs, Prog.run_bind, canceledWorld, finishedJobRegistry]

/-- The world after `delete_job`. -/
def deletedWorld (env : Env) (q : Queue) (n : JobName) (expireJobModel : Bool) (w : World) :
    World :=
  match (if expireJobModel then JobModel.fetch env w n else none) with
  | none => q.removeFromAll n w
  | some job =>
      if job.jobInfoTtl = 0 then q.removeFromAll n (w.deleteJob job.name)
      else expireIn job (q.removeFromAll n w)

theorem run_deleteJob (env : Env) (q : Queue) (n : JobName) (e : Bool) (w : World) :
    (q.deleteJob env n e).run w = ⟨.ok (), q.deletedWorld env n e w, []⟩ := by
  unfold deleteJob deletedWorld
  cases e with
  | false => simp
  | true =>
      simp only [if_true, Prog.run_bind, JobModel.run_get, Prog.Outcome.andThen_ok]
      cases JobModel.fetch env w n with
      | none => simp
      | some job =>
          by_cases h : job.jobInfoTtl = 0
          · simp [h, JobModel.delete, Prog.run_bind]
          · simp [h]

end Queue

end DailyScheduler
