import DailyScheduler.Lib.Steps
import DailyScheduler.Model.Effects
import DailyScheduler.Model.Sample

set_option autoImplicit false

/-! # What executing a job can do, step by step

`ExecStep q n` lists every command that the execution of the job `n` of the queue `q` may send
to the broker, up to the commands that end the life of its record (`ExpireStep n`);
`UserCode env U` bounds what the called functions do. The lemmas below say that
`worker_perform_job`, `run_sync` and the functions they are made of take no other step.
-/

namespace DailyScheduler

open AtomicProg

/-- The commands of the execution of the job `n` of the queue `q`. The event of the call itself
is not among them. -/
inductive ExecStep (q : QueueName) (n : JobName) : World → World → List Event → Prop where
  | same (w : World) : ExecStep q n w w []
  | add (w : World) (k : RegistryKind) (s : Int)
      (h : k = .active ∨ k = .finished ∨ k = .failed) : ExecStep q n w (w.zadd q k n s) []
  | remove (w : World) : ExecStep q n w (w.zrem q .active n) []
  | save (w : World) (j : JobModel) (saveAll : Bool) (h : j.name = n) :
      ExecStep q n w (w.saveJob j saveAll) []
  | persist (w : World) : ExecStep q n w (w.persistJob n) []
  | result (w : World) (r : Result (Option Stored)) (h : r.parent = n) : ExecStep q n w (w.xadd r) []
  | deleteResults (w : World) : ExecStep q n w (w.deleteResults n) []
  | saveWorker (w : World) (cfg : SchedulerConfiguration) (m : WorkerModel) (saveAll : Bool) :
      ExecStep q n w (w.saveWorker cfg m saveAll) []
  | expireWorker (w : World) (name : WorkerName) (d : Int) :
      ExecStep q n w (w.expireWorker name d) []
  | success (w : World) : ExecStep q n w w [.successCallback n]
  | failure (w : World) : ExecStep q n w w [.failureCallback n]

/-- The commands of `expire` for the job `n`. -/
inductive ExpireStep (n : JobName) : World → World → List Event → Prop where
  | expire (w : World) (d : Int) : ExpireStep n w (w.expireJob n d) []
  | delete (w : World) : ExpireStep n w (w.deleteJob n) []

/-- Every step of the user code, and of the coroutines it returns, is in `U`. -/
def UserCode (env : Env) (U : World → World → List Event → Prop) : Prop :=
  ∀ name f job, env.callableFunc name = .ok f →
    (f job).Steps U fun o => ∀ p, o.coroutine = some p → p.Steps U fun _ => True

theorem UserCode.mono {env : Env} {U U' : World → World → List Event → Prop}
    (h : UserCode env U) (hU : ∀ w w' es, U w w' es → U' w w' es) : UserCode env U' := by
  intro name f job hf
  exact (h name f job hf).mono hU fun o ho p hp => (ho p hp).mono hU fun _ => id

/-- The steps of the execution: the broker commands and those of the user code. -/
def ExecOr (q : QueueName) (n : JobName) (U : World → World → List Event → Prop) (w w' : World)
    (es : List Event) : Prop :=
  ExecStep q n w w' es ∨ U w w' es

/-- The method left an object of the name `n`. -/
def Named {α : Type} (n : JobName) (r : After α) : Prop := r.1.name = n

section Steps

variable {q : QueueName} {n : JobName} {U : World → World → List Event → Prop} {env : Env}

theorem readStep {β : Type} (g : World → β) :
    (Prog.read g : Py β).Steps (ExecOr q n U) fun _ => True :=
  fun s => ⟨Or.inl (.same s), trivial⟩

theorem writeStep {f : World → World} (h : ∀ w, ExecStep q n w (f w) []) :
    (Prog.write f : Py Unit).Steps (ExecOr q n U) fun _ => True :=
  Prog.Steps.write fun w => Or.inl (h w)

theorem After.next_steps {α β : Type} {R : World → World → List Event → Prop}
    {P : After α → Prop} {P' : After β → Prop} {p : Py (After α)}
    {f : JobModel → α → Py (After β)} (hp : p.Steps R P)
    (hf : ∀ j a, P (j, .ok a) → (f j a).Steps R P')
    (hx : ∀ j x, P (j, .error x) → P' (j, .error x)) : (After.next p f).Steps R P' := by
  refine hp.bind fun r hr => ?_
  obtain ⟨j, x | a⟩ := r
  · exact hx j x hr
  · exact hf j a hr

theorem After.get_steps {α : Type} {R : World → World → List Event → Prop}
    {P : After α → Prop} {Q : JobModel × α → Prop} {p : Py (After α)} (hp : p.Steps R P)
    (h : ∀ j a, P (j, .ok a) → Q (j, a)) : (After.get p).Steps R Q := by
  refine hp.bind fun r hr => ?_
  obtain ⟨j, x | a⟩ := r
  · trivial
  · exact h j a hr

theorem After.next_triple {α β τ : Type} {S : Side World Event τ} {P : Config World τ → Prop}
    {Q : After α → Config World τ → Prop} {Q' : After β → Config World τ → Prop}
    {X : PyError → Config World τ → Prop} {p : Py (After α)} {f : JobModel → α → Py (After β)}
    (hp : S.Triple P p Q X) (hf : ∀ j a, S.Triple (Q (j, .ok a)) (f j a) Q' X)
    (hx : ∀ j x, S.Triple (Q (j, .error x)) (.ret (j, .error x)) Q' X) :
    S.Triple P (After.next p f) Q' X := by
  refine hp.bind fun r => ?_
  obtain ⟨j, x | a⟩ := r
  · exact hx j x
  · exact hf j a

/-- `get_many` loads jobs of the names it is given. -/
theorem getMany_steps {R : World → World → List Event → Prop} (hR : ∀ w, R w w []) (env : Env)
    (names : List JobName) :
    (JobModel.getMany env names).Steps R fun js => ∀ j, some j ∈ js → j.name ∈ names := by
  refine (Prog.Steps.read hR).bind fun values hvalues => ?_
  obtain ⟨w, rfl⟩ := hvalues
  cases hd : JobModel.deserializeAll env (names.map fun n => (n, w.jobs.find? n)) with
  | error x => trivial
  | ok js =>
      intro j hj
      have hrun : ((JobModel.getMany env names).run w).val = .ok js := by
        rw [JobModel.run_getMany]
        exact hd
      exact (JobModel.getMany_mem hrun hj).1

/-! ## The job -/

theorem save_steps {j : JobModel} (saveAll : Bool) (hj : j.name = n) :
    (j.save saveAll).Steps (ExecOr q n U) (Named n) := by
  refine Prog.Steps.ite (fun _ => ?_) (fun _ => hj)
  exact (writeStep fun w => .save w j saveAll hj).bind fun _ _ => hj

theorem prepareForExecution_steps {j : JobModel} (hj : j.name = n) (name : WorkerName) :
    (j.prepareForExecution name ⟨q, .active⟩).Steps (ExecOr q n U) (Named n) := by
  subst hj
  refine (readStep _).bind fun now _ => ?_
  refine (writeStep fun w => ?_).bind fun _ _ => save_steps false rfl
  exact .add w .active _ (Or.inl rfl)

theorem afterExecution_steps {j : JobModel} (hj : j.name = n) (ttl : Int) (status : JobStatus)
    {k : RegistryKind} (hk : k = .finished ∨ k = .failed) :
    (j.afterExecution ttl status ⟨q, .active⟩ ⟨q, k⟩).Steps (ExecOr q n U) (Named n) := by
  subst hj
  refine (readStep _).bind fun now _ => ?_
  refine (writeStep fun w => .remove w).bind fun _ _ => ?_
  refine Prog.Steps.bind (Q := fun _ => True) (Prog.Steps.ite (fun _ => trivial) fun _ => ?_)
    fun _ _ => save_steps false rfl
  exact (readStep _).bind fun t _ => writeStep fun w => .add w k _ (Or.inr hk)

theorem expire_steps {j : JobModel} (hj : j.name = n) (ttl : Int) :
    (j.expire ttl).Steps (ExpireStep n) fun j' => j'.name = n := by
  subst hj
  refine Prog.Steps.ite (fun _ => ?_) (fun _ => Prog.Steps.ite (fun _ => ?_) (fun _ => rfl))
  · exact (Prog.Steps.write fun w => .delete w).bind fun _ _ => rfl
  · exact (Prog.Steps.write fun w => .expire w _).bind fun _ _ => rfl

/-! ## User code -/

theorem call_steps {R : World → World → List Event → Prop} (hR : UserCode env R) {name : String}
    {f : JobModel → Py CallOutcome} (hf : env.callableFunc name = .ok f) {j : JobModel}
    (hj : j.name = n) : (j.call f).Steps R fun r =>
      Named n r ∧ ∀ o, r.2 = .ok o → ∀ p, o.coroutine = some p → p.Steps R fun _ => True := by
  refine Prog.Steps.bind (hR name f j hf).attempt fun r hr => ?_
  cases r with
  | error x => exact ⟨hj, by simp⟩
  | ok o =>
      have ho := hr o rfl
      dsimp only
      cases o.val with
      | error x => exact ⟨hj, by simp⟩
      | ok v =>
          refine ⟨hj, fun o' h => ?_⟩
          cases h
          exact ho

theorem runCoroutine_steps {R : World → World → List Event → Prop} {j : JobModel}
    (hj : j.name = n) {o : CallOutcome}
    (ho : ∀ p, o.coroutine = some p → p.Steps R fun _ => True) :
    (runCoroutine j o).Steps R (Named n) := by
  unfold runCoroutine
  cases hc : o.coroutine with
  | none => exact hj
  | some p =>
      refine Prog.Steps.bind (ho p hc).attempt fun r _ => ?_
      cases r with
      | error x => exact hj
      | ok r => exact hj

/-- A callback takes the steps of its function, after the event of its call. -/
theorem callCallback_steps {R : World → World → List Event → Prop} (hR : UserCode env R)
    {j : JobModel} (hj : j.name = n) (name : Option String) (timeout : Option Int) {e : Event}
    (he : ∀ w, R w w [e]) : (j.callCallback env name timeout e).Steps R (Named n) := by
  unfold JobModel.callCallback
  cases name with
  | none => exact hj
  | some name =>
      dsimp only
      cases hr : Callback.resolve env name timeout with
      | error x => exact hj
      | ok f =>
          have hf := Callback.callableFunc_of_resolve hr
          refine (Prog.Steps.emit he).bind fun _ _ => ?_
          exact After.next_steps (call_steps hR hf hj) (fun j a h => h.1) (fun j x h => h.1)

theorem callSuccessCallback_steps (hU : UserCode env U) {j : JobModel} (hj : j.name = n) :
    (j.callSuccessCallback env).Steps (ExecOr q n U) (Named n) :=
  callCallback_steps (hU.mono fun _ _ _ => Or.inr) hj _ _ fun w => Or.inl (hj ▸ .success w)

theorem callFailureCallback_steps (hU : UserCode env U) {j : JobModel} (hj : j.name = n) :
    (j.callFailureCallback env).Steps (ExecOr q n U) (Named n) :=
  callCallback_steps (hU.mono fun _ _ _ => Or.inr) hj _ _ fun w => Or.inl (hj ▸ .failure w)

theorem afterCall_steps (hU : UserCode env U) {j : JobModel} (hj : j.name = n) {o : CallOutcome}
    (ho : ∀ p, o.coroutine = some p → p.Steps U fun _ => True) :
    (afterCall env j o).Steps (ExecOr q n U) (Named n) := by
  refine After.next_steps (save_steps true hj) (fun j _ hj => ?_) (fun _ _ h => h)
  have ho' : ∀ p, o.coroutine = some p → p.Steps (ExecOr q n U) fun _ => True :=
    fun p hp => (ho p hp).mono (fun _ _ _ => Or.inr) fun _ => id
  refine After.next_steps (runCoroutine_steps hj ho') (fun j _ hj => ?_) (fun _ _ h => h)
  exact After.next_steps (callSuccessCallback_steps hU hj) (fun _ _ h => h) (fun _ _ h => h)

theorem exceptClause_steps (hU : UserCode env U) {r : After PyValue} (hr : Named n r) :
    (exceptClause env r).Steps (ExecOr q n U) (Named n) := by
  obtain ⟨j, x | v⟩ := r
  · refine Prog.Steps.ite (fun _ => ?_) (fun _ => hr)
    exact After.next_steps (callFailureCallback_steps hU hr) (fun _ _ h => h) (fun _ _ h => h)
  · exact hr

/-! ## Results and the end of an execution -/

theorem resultCreate_steps (name : Option WorkerName) (type : ResultType) (ttl : Int)
    (v : PyValue) (s : Option String) :
    (Result.create n name type ttl v s).Steps (ExecOr q n U) fun _ => True := by
  refine (readStep _).bind fun now _ => ?_
  refine Prog.Steps.ite (fun _ => writeStep fun w => .deleteResults w) (fun _ => ?_)
  exact Prog.Steps.ite (fun _ => writeStep fun w => .result w _ rfl) (fun _ => trivial)

theorem jobHandleSuccess_steps {queue : Queue} {j : JobModel} (hj : j.name = n) (v : PyValue)
    (ttl ttl' : Int) :
    (queue.jobHandleSuccess j v ttl ttl').Steps (ExecOr queue.name n U) (Named n) := by
  refine After.next_steps (afterExecution_steps hj ttl _ (Or.inl rfl)) (fun j' _ hj' => ?_)
    (fun _ _ h => h)
  have hj'' : j'.name = n := hj'
  rw [hj'']
  exact Prog.Steps.bind (resultCreate_steps _ _ _ _ _).attempt fun _ _ => hj'

theorem jobHandleFailure_steps {queue : Queue} {j : JobModel} (hj : j.name = n)
    (status : JobStatus) (s : String) :
    (queue.jobHandleFailure env status j s).Steps (ExecOr queue.name n U) (Named n) := by
  refine After.next_steps (afterExecution_steps hj _ _ (Or.inr rfl)) (fun j' _ hj' => ?_)
    (fun _ _ h => h)
  have hj'' : j'.name = n := hj'
  rw [hj'']
  exact Prog.Steps.bind (resultCreate_steps _ _ _ _ _).attempt fun _ _ => hj'

/-! ## The whole execution -/

/-- `queue_perform_job`, when the user's relation also admits the event of the call. -/
theorem queuePerformJob_steps (hU : UserCode env U) (hcall : ∀ w, U w w [.called n])
    {j : JobModel} (hj : j.name = n) :
    (queuePerformJob env j).Steps (ExecOr q n U) (Named n) := by
  have hpersist : (j.persist).Steps (ExecOr q n U) fun _ => True :=
    writeStep fun w => hj ▸ .persist w
  refine hpersist.bind fun _ _ => ?_
  refine Prog.Steps.bind (Q := Named n) ?_ fun r hr => exceptClause_steps hU hr
  have hfunc : (callFunc env j).Steps (ExecOr q n U) fun r => Named n r ∧ ∀ o, r.2 = .ok o →
      ∀ p, o.coroutine = some p → p.Steps U fun _ => True := by
    unfold callFunc
    cases hf : env.callableFunc j.funcName with
    | error x => exact ⟨hj, by simp⟩
    | ok f =>
        refine Prog.Steps.bind (Prog.Steps.emit fun w => Or.inr (hj ▸ hcall w)) fun _ _ => ?_
        exact (call_steps hU hf hj).mono (fun _ _ _ => Or.inr) fun _ => id
  exact After.next_steps hfunc (fun j' o h => afterCall_steps hU h.1 (h.2 o rfl))
    fun _ _ h => h.1

theorem runSync_steps (hU : UserCode env U) (hcall : ∀ w, U w w [.called n]) {queue : Queue}
    {j : JobModel} (hj : j.name = n) :
    (queue.runSync env j).Steps (ExecOr queue.name n U) (Named n) := by
  refine After.next_steps (prepareForExecution_steps hj "sync") (fun j _ hj => ?_)
    (fun _ _ h => h)
  refine Prog.Steps.bind (Q := Named n) ?_ fun r hr => ?_
  · exact After.next_steps (queuePerformJob_steps hU hcall hj)
      (fun j v hj => jobHandleSuccess_steps hj v _ _) (fun _ _ h => h)
  · obtain ⟨j', x | a⟩ := r
    · exact Prog.Steps.ite (fun _ => jobHandleFailure_steps hr _ _) (fun _ => hr)
    · exact hr

/-! ## The worker -/

theorem saveModel_steps (wk : Worker) (saveAll : Bool) :
    (wk.saveModel env saveAll).Steps (ExecOr q n U) fun _ => True :=
  (writeStep fun w => .saveWorker w _ _ _).bind fun _ _ => trivial

theorem workerBeforeExecution_steps (wk : Worker) (j : JobModel) :
    (wk.workerBeforeExecution env j).Steps (ExecOr q n U) fun _ => True := by
  refine Prog.Steps.bind (Q := fun _ => True) ?_ fun wk' _ => saveModel_steps wk' false
  refine (readStep _).bind fun now _ => (saveModel_steps _ true).bind fun wk' _ => ?_
  exact (writeStep fun w => .expireWorker w _ _).bind fun _ _ => trivial

theorem handleJobFailure_steps (wk : Worker) {j : JobModel} (hj : j.name = n) (queue : Queue)
    (s : String) :
    (wk.handleJobFailure env j queue s).Steps (ExecOr queue.name n U) fun _ => True := by
  refine (readStep _).bind fun stopped _ => ?_
  refine (jobHandleFailure_steps hj _ s).bind fun r _ => ?_
  cases r.2 with
  | error x => trivial
  | ok a => exact (saveModel_steps _ false).bind fun _ _ => trivial

theorem finishSuccess_steps (wk : Worker) {j : JobModel} (hj : j.name = n) :
    (wk.finishSuccess env j).Steps
      (fun w w' es => ExecOr q n U w w' es ∨ ExpireStep n w w' es) fun _ => True := by
  refine Prog.Steps.bind ((saveModel_steps _ false).mono (fun _ _ _ => Or.inl) fun _ => id)
    fun _ _ => ?_
  exact ((expire_steps hj _).mono (fun _ _ _ => Or.inr) fun _ => id).bind fun _ _ => trivial

theorem performAndStore_steps (hU : UserCode env U) (hcall : ∀ w, U w w [.called n]) (wk : Worker)
    {j : JobModel} (hj : j.name = n) (queue : Queue) :
    (wk.performAndStore env j queue).Steps (ExecOr queue.name n U) (Named n) := by
  refine After.next_steps (prepareForExecution_steps hj wk.name) (fun j _ hj => ?_)
    (fun _ _ h => h)
  exact After.next_steps (queuePerformJob_steps hU hcall hj)
    (fun j v hj => jobHandleSuccess_steps hj v _ _) (fun _ _ h => h)

/-- `worker_perform_job`. -/
theorem workerPerformJob_steps (hU : UserCode env U) (hcall : ∀ w, U w w [.called n])
    (wk : Worker) {j : JobModel} (hj : j.name = n) (queue : Queue) :
    (wk.workerPerformJob env j queue).Steps
      (fun w w' es => ExecOr queue.name n U w w' es ∨ ExpireStep n w w' es) fun _ => True := by
  have hexec : ∀ {α : Type} {p : Py α} {Q : α → Prop}, p.Steps (ExecOr queue.name n U) Q →
      p.Steps (fun w w' es => ExecOr queue.name n U w w' es ∨ ExpireStep n w w' es) Q :=
    fun h => h.mono (fun _ _ _ => Or.inl) fun _ => id
  refine (hexec (workerBeforeExecution_steps wk j)).bind fun wk _ => ?_
  refine (hexec (performAndStore_steps hU hcall wk hj queue)).bind fun r hr => ?_
  obtain ⟨j', x | a⟩ := r
  · refine (hexec (handleJobFailure_steps wk hr queue _)).bind fun r _ => ?_
    obtain ⟨wk', j'', x | a⟩ := r <;> trivial
  · exact (finishSuccess_steps wk hr).bind fun _ _ => trivial

/-- `execute_job`, in a process of its own or not. -/
theorem executeJob_steps (hU : UserCode env U) (hcall : ∀ w, U w w [.called n]) (wk : Worker)
    {j : JobModel} (hj : j.name = n) (queue : Queue) (fork : Bool) :
    (wk.executeJob env j queue fork).Steps
      (fun w w' es => ExecOr queue.name n U w w' es ∨ ExpireStep n w w' es) fun _ => True := by
  have hfetch : (if fork then JobModel.get env j.name else pure (some j) : Py _).Steps
      (fun w w' es => ExecOr queue.name n U w w' es ∨ ExpireStep n w w' es)
      fun job => ∀ j', job = some j' → j'.name = n := by
    refine Prog.Steps.ite (fun _ w => ⟨Or.inl (Or.inl (.same w)), fun j' hj' => ?_⟩)
      fun _ j' hj' => ?_
    · exact (JobModel.name_of_fetch hj').trans hj
    · cases hj'
      exact hj
  refine hfetch.bind fun job hjob => ?_
  cases job with
  | none => trivial
  | some j' =>
      refine (workerPerformJob_steps hU hcall wk (hjob j' rfl) queue).bind fun r _ => ?_
      obtain ⟨wk', j'', x | a⟩ := r
      · exact Prog.Steps.ite (fun _ => trivial) fun _ => trivial
      · trivial

end Steps

/-- The sample's user code takes no steps at all. -/
theorem Sample.userCode (U : World → World → List Event → Prop) : UserCode Sample.env U := by
  have hquiet : ∀ r job, (Sample.quietCode r job).Steps U
      fun o => ∀ p, o.coroutine = some p → p.Steps U fun _ => True := by
    intro r job p hp
    cases hp
  intro name f job h
  simp only [Sample.env, Sample.callables] at h
  split at h <;> cases h <;> exact hquiet _ job

end DailyScheduler
