import DailyScheduler.Concurrency.Counters
import DailyScheduler.Execution.Callbacks

set_option autoImplicit false

/-! # The counters of a task after an execution

The callbacks of a task's job count its runs. In an execution that invokes one callback, that of its
outcome, one of the two counters grows by one, and it is the right one.
-/

namespace DailyScheduler.Callbacks

open AtomicProg Lifetime Counters

/-! ## Jobs of a task -/

/-- A function of `models/task.py` as user code. -/
def asCode (p : JobModel → Py Unit) (job : JobModel) : Py CallOutcome := do
  p job
  pure { val := .ok .none, metadata := job.metadata, coroutine := none }

/-- The job is one of the task, and the names of its callbacks stand for the functions of
`models/task.py`, of which the failure callback mails to the admins as `mail` tells. -/
structure TaskJob (env env' : Env) (mail : Except PyError Unit) (id : Nat) (job : JobModel) : Prop where
  task : taskId job = some id
  successName : job.successCallbackName = some successCallbackName
  failureName : job.failureCallbackName = some failureCallbackName
  success : env.callableFunc successCallbackName = .ok (asCode (Task.successCallback env'))
  failure : env.callableFunc failureCallbackName = .ok (asCode (Task.failureCallback env' mail))

/-- One of the counters has grown by one since the row was `t`, and it was `successful_runs` if and
only if the job has finished. -/
def RunCounted (q : Queue) (n : JobName) (t : Task) (o : Prog.Outcome World Event PyError JobModel) :
    Prop :=
  ∃ t', o.state.tasks.find? t.id = some t' ∧
    t'.successfulRuns + t'.failedRuns = t.successfulRuns + t.failedRuns + 1 ∧
    (Finished q n o ↔ t'.successfulRuns = t.successfulRuns + 1)

/-- The execution is reported rightly, and to the task, too: where the job is one of a task, the
counters tell so, from the row `t` as the callable leaves it. -/
structure ReportedToTask (env : Env) (q : Queue) (job : JobModel) (path : Path) (w : World) :
    Prop where
  reported : Reported q job.name ((execution (muted env) q job path).run w)
  counted : ∀ env' mail t, TaskJob env env' mail t.id job →
    ((produced (muted env) q job path).exec w).tasks.find? t.id = some t → Waits env' t →
    RunCounted q job.name t ((execution (muted env) q job path).run w)

/-- An `Exception` is raised before the success callback is invoked. -/
def RaisesEarly (env : Env) (q : Queue) (job : JobModel) (path : Path) (w : World) : Prop :=
  ∃ j x r w₁ t, (produced env q job path).run w = ⟨.ok (j, r), w₁, t⟩ ∧
    (r = .error x ∨ (∃ rv, r = .ok rv) ∧ onSuccess env j = some (.error x)) ∧ x.isException = true

/-- The mail to the admins goes out, where the failure callback of a task is invoked. -/
def MailsOut (env : Env) (q : Queue) (job : JobModel) (path : Path) (w : World) : Prop :=
  RaisesEarly (muted env) q job path w → ∀ env' mail t, TaskJob env env' mail t.id job →
    ((produced (muted env) q job path).exec w).tasks.find? t.id = some t → Waits env' t → mail = .ok ()

section Counting

variable {env env' : Env} {q : Queue} {job j : JobModel} {path : Path} {w : World} {id : Nat}
  {t : Task} {mail : Except PyError Unit}

/-- The callbacks of the objects are the same. -/
structure SameCallbacks (job j : JobModel) : Prop where
  task : taskId j = taskId job
  successName : j.successCallbackName = job.successCallbackName
  failureName : j.failureCallbackName = job.failureCallbackName

theorem performs_sameCallbacks (env : Env) (job : JobModel) :
    Performs env (SameCallbacks job) AnyStep where
  saved := fun _ h => ⟨h.task, h.successName, h.failureName⟩
  metadata := fun _ _ h => ⟨h.task, h.successName, h.failureName⟩
  same := fun _ => trivial
  save := fun _ _ _ _ => trivial
  persist := fun _ _ _ => trivial
  called := fun _ _ _ => trivial
  success := fun _ _ _ => trivial
  failure := fun _ _ _ => trivial
  user := fun _ f job _ => (anySteps (f job)).mono (fun _ _ _ => id) fun _ _ p _ => anySteps p

theorem sameCallbacks_prepared (job : JobModel) (name : WorkerName) (now : Int) :
    SameCallbacks job (job.prepared name now).saved := by
  constructor <;>
    simp only [taskId, JobModel.saved, JobModel.prepared, JobModel.setStatus, JobModel.setStartedAt,
      JobModel.setLastHeartbeat, JobModel.setWorkerName]

theorem sameCallbacks_of_produced {r : Except PyError PyValue} {w₁ : World} {es : List Event}
    (hs : job.serializable = true)
    (h : (produced env q job path).run w = ⟨.ok (j, r), w₁, es⟩) : SameCallbacks job j := by
  have hprepared : SameCallbacks job (preparedJob env job path w) :=
    sameCallbacks_prepared job path.name _
  have hsteps := produce_steps (performs_sameCallbacks env job) hprepared
  have hrun := (run_produced hs).symm.trans h
  generalize (preparedWorld env q job path w).persistJob job.name = w₀ at hrun
  have hval : ((produce env (preparedJob env job path w)).run w₀).val = .ok (j, r) := by rw [hrun]
  exact hsteps.val w₀ hval

/-! ### What the callback does -/

/-- The commands of an execution leave the rows alone. -/
theorem tasks_of_execStep {q : QueueName} {n : JobName} {w w' : World} {es : List Event}
    (h : ExecStep q n w w' es) : w'.tasks = w.tasks := by
  cases h <;> rfl

theorem tasks_of_expireStep {n : JobName} {w w' : World} {es : List Event}
    (h : ExpireStep n w w' es) : w'.tasks = w.tasks := by
  cases h <;> rfl

theorem close_steps (env : Env) (q : Queue) (r : After PyValue) (path : Path) :
    (close env q r path).Steps Counters.SameTasks fun _ => True := by
  have hexec : ∀ {α : Type} {p : Py α} {n : JobName} {Q : α → Prop},
      p.Steps (ExecOr q.name n Counters.SameTasks) Q → p.Steps Counters.SameTasks Q :=
    fun hp => hp.mono (fun _ _ _ hs => hs.elim tasks_of_execStep id) fun _ ha => ha
  have hkeep : (keepResult q r).Steps Counters.SameTasks fun _ => True := by
    obtain ⟨j, x | rv⟩ := r
    · trivial
    · exact (hexec (jobHandleSuccess_steps (n := j.name) rfl rv _ _)).of_true
  cases path with
  | worker wk =>
      refine hkeep.bind fun r _ => ?_
      obtain ⟨j, x | u⟩ := r
      · exact (hexec (handleJobFailure_steps (n := j.name) wk rfl q _)).bind fun _ _ => trivial
      · have hfinish : (wk.finishSuccess env j).Steps (fun w w' es =>
            ExecOr q.name j.name Counters.SameTasks w w' es ∨ ExpireStep j.name w w' es) fun _ => True :=
          finishSuccess_steps wk rfl
        refine (hfinish.mono (fun _ _ _ hs => ?_) fun _ => id).bind fun _ _ => trivial
        exact hs.elim (fun hs => hs.elim tasks_of_execStep id) tasks_of_expireStep
  | sync =>
      refine hkeep.bind fun r _ => ?_
      obtain ⟨j, x | u⟩ := r
      · refine Prog.Steps.ite (fun _ => ?_) fun _ => trivial
        exact (hexec (jobHandleFailure_steps (n := j.name) rfl _ _)).bind fun _ _ => trivial
      · trivial

/-- A call runs the user code. -/
theorem exec_call (j : JobModel) (f : JobModel → Py CallOutcome) (w : World) :
    (j.call f).exec w = (f j).exec w := by
  unfold JobModel.call
  refine (Prog.exec_bind_of_silent fun r w => ?_).trans (Prog.exec_attempt (f j) w)
  cases r with
  | error x => rfl
  | ok o =>
      dsimp only
      cases o.val <;> rfl

/-- A callback of the task, invoked as user code. -/
theorem exec_call_asCode {name : String} {timeout : Option Int} {p : JobModel → Py Unit}
    {f : JobModel → Py CallOutcome} (hp : env.callableFunc name = .ok (asCode p))
    (hf : Callback.resolve (muted env) name timeout = .ok f) (j : JobModel) (w : World) :
    (j.call f).exec w = (p j).exec w := by
  have hmuted : (env.callableFunc name).map (fun f job => do
      let o ← (f job).mute
      pure { o with coroutine := o.coroutine.map Prog.mute }) = .ok f :=
    Callback.callableFunc_of_resolve hf
  rw [hp] at hmuted
  cases hmuted
  rw [exec_call]
  have hcode : (asCode p j).exec w = (p j).exec w := Prog.exec_bind_of_silent fun _ _ => rfl
  have hmute : (asCode p j).mute.exec w = (asCode p j).exec w := by
    rw [Prog.exec, Prog.run_mute, Prog.exec]
  exact (Prog.exec_bind_of_silent fun _ _ => rfl).trans (hmute.trans hcode)

/-- The row of the task has grown by a run of the kind `f` counts when the callback is through. -/
theorem row_exec_call {name : String} {timeout : Option Int} {p : JobModel → Py Unit}
    {f : JobModel → Py CallOutcome} {g : Task → Int → Task} {c : Task}
    (hp : env.callableFunc name = .ok (asCode p))
    (hf : Callback.resolve (muted env) name timeout = .ok f)
    (hcallback : p j = callback env' j g) (hid : taskId j = some t.id)
    (hfind : w.tasks.find? t.id = some t) (hg : ∀ now, core (g t now) = c) (hc : Waits env' c)
    (hkey : c.id = t.id) : row t.id ((j.call f).exec w) = some c := by
  rw [exec_call_asCode hp hf, hcallback]
  exact row_exec_callback hid hfind hg hc hkey

/-- What comes after `queue_perform_job` does not count. -/
theorem row_of_ran {j₁ j' : JobModel} {r₁ r' : Except PyError PyValue} {w₁ w' : World}
    {es : List Event} {path' : Path} (h : Ran env q job path w j₁ r₁ w₁ j' r' w' es path')
    (id : Nat) : row id ((execution env q job path).run w).state = row id w' := by
  have hclose : ((close env q (j', r') path').exec w').tasks = w'.tasks :=
    (close_steps env q (j', r') path').exec (I := fun v => v.tasks = w'.tasks)
      (fun _ _ _ hs hv => hs.trans hv) rfl
  rw [h.whole]
  exact Counters.SameTasks.row hclose id

/-- The callback is invoked by `queue_perform_job`. -/
theorem finished_iff_of_ran {j₁ j' : JobModel} {r₁ r' : Except PyError PyValue} {w₁ w' : World}
    {es : List Event} {path' : Path} (h : Ran env q job path w j₁ r₁ w₁ j' r' w' es path')
    (hreported : Reported q job.name ((execution env q job path).run w))
    (hinvoked : 1 ≤ es.count (.successCallback job.name) + es.count (.failureCallback job.name)) :
    Finished q job.name ((execution env q job path).run w) ↔
      es.count (.successCallback job.name) = 1 := by
  have hone := hreported.one
  have hagrees := hreported.agrees
  have htrace := congrArg Prog.Outcome.trace h.whole
  dsimp only at htrace
  rw [htrace, List.count_append, List.count_append] at hone
  rw [hagrees, htrace, List.count_append]
  omega

theorem runCounted_of_row {n : JobName} {o : Prog.Outcome World Event PyError JobModel} {c : Task}
    (hrow : row t.id o.state = some c)
    (hsum : c.successfulRuns + c.failedRuns = t.successfulRuns + t.failedRuns + 1)
    (hkind : Finished q n o ↔ c.successfulRuns = t.successfulRuns + 1) :
    RunCounted q n t o := by
  obtain ⟨t', hfind, rfl⟩ := Option.map_eq_some_iff.1 hrow
  exact ⟨t', hfind, hsum, hkind⟩

/-- A failure callback that cannot mail leaves the row as it is. -/
theorem row_exec_call_unmailed {f : JobModel → Py CallOutcome} {timeout : Option Int} {x : PyError}
    (hp : env.callableFunc failureCallbackName = .ok (asCode (Task.failureCallback env' (.error x))))
    (hf : Callback.resolve (muted env) failureCallbackName timeout = .ok f) (id : Nat) :
    row id ((j.call f).exec w) = row id w := by
  have hsame : ((Task.failureCallback env' (.error x) j).exec w) = w := by
    refine (Prog.exec_bind_of_silent fun found w => ?_).trans ?_
    · cases found <;> rfl
    · unfold Task.getTaskForJob
      split <;> rfl
  rw [exec_call_asCode hp hf, hsame]

/-- The callback that is found is the function that the job's task gave it. -/
theorem resolve_of_onSuccess {f : JobModel → Py CallOutcome} (hsame : SameCallbacks job j)
    (htask : TaskJob env env' mail id job) (hcb : onSuccess (muted env) j = some (.ok f)) :
    Callback.resolve (muted env) successCallbackName j.successCallbackTimeout = .ok f := by
  unfold onSuccess at hcb
  rw [hsame.successName, htask.successName] at hcb
  exact Option.some_inj.1 hcb

theorem resolve_of_onFailure {f : JobModel → Py CallOutcome} (hsame : SameCallbacks job j)
    (htask : TaskJob env env' mail id job) (hcb : onFailure (muted env) j = some (.ok f)) :
    Callback.resolve (muted env) failureCallbackName j.failureCallbackTimeout = .ok f := by
  unfold onFailure at hcb
  rw [hsame.failureName, htask.failureName] at hcb
  exact Option.some_inj.1 hcb

/-- An exception that is raised before the success callback is invoked is what the performance fails with. -/
theorem fails_of_raised {n : JobName} {x : PyError} {j' : JobModel} {r r' : Except PyError PyValue}
    {w w' : World} {es : List Event} (hends : EndsAs env n j r w j' r' w' es)
    (hraised : r = .error x ∨ (∃ rv, r = .ok rv) ∧ onSuccess env j = some (.error x)) :
    Fails env n j x w r' w' es := by
  unfold EndsAs at hends
  rcases hraised with rfl | ⟨⟨rv, rfl⟩, hresolve⟩
  · exact hends
  · dsimp only at hends
    rw [hresolve] at hends
    exact hends

/-- The failure callback is the one that is invoked, and it is that of the task. -/
theorem row_of_failure {x : PyError} {r : Except PyError PyValue} {w₁ : World} {es : List Event}
    (hs : job.serializable = true)
    (hp : (produced (muted env) q job path).run w = ⟨.ok (j, r), w₁, es⟩)
    (hraised : r = .error x ∨ (∃ rv, r = .ok rv) ∧ onSuccess (muted env) j = some (.error x))
    (hexception : x.isException = true) {f : JobModel → Py CallOutcome}
    (hcb : onFailure (muted env) j = some (.ok f)) (id : Nat) :
    row id ((execution (muted env) q job path).run w).state = row id ((j.call f).exec w₁) := by
  obtain ⟨j₁, r₁, w₂, j', r', w', es', path', hran⟩ :=
    @exists_ran (muted env) q job path w (userCode_muted env) hs
  obtain ⟨t₁, hmade⟩ := hran.made
  rw [hmade] at hp
  cases hp
  rw [row_of_ran hran id, (fails_of_raised hran.ends hraised).failing f hcb hexception]

/-! ### What is counted -/

section Ran

variable {j₁ j' : JobModel} {r₁ r' : Except PyError PyValue} {w₁ w' : World} {es : List Event} {path' : Path}

/-- The success callback has counted the run, and the job has finished. -/
theorem counted_of_success (hran : Ran (muted env) q job path w j₁ r₁ w₁ j' r' w' es path')
    (hreported : Reported q job.name ((execution (muted env) q job path).run w))
    (htask : TaskJob env env' mail t.id job) (hsame : SameCallbacks job j₁)
    (hfind : w₁.tasks.find? t.id = some t) (hwaits : Waits env' t)
    {f : JobModel → Py CallOutcome} (hcb : onSuccess (muted env) j₁ = some (.ok f))
    (hlast : w' = (j₁.call f).exec w₁) (hinvoked : es.count (.successCallback job.name) = 1) :
    RunCounted q job.name t ((execution (muted env) q job path).run w) := by
  have hid : taskId j₁ = some t.id := hsame.task.trans htask.task
  have hcounted : row t.id ((j₁.call f).exec w₁)
      = some (core { t with successfulRuns := t.successfulRuns + 1 }) :=
    row_exec_call (g := fun t now => { t with
        jobName := none, successfulRuns := t.successfulRuns + 1, lastSuccessfulRun := some now })
      htask.success (resolve_of_onSuccess hsame htask hcb) rfl hid hfind (fun _ => rfl) hwaits rfl
  have hrow := row_of_ran hran t.id
  rw [hlast, hcounted] at hrow
  have hfinished := (finished_iff_of_ran hran hreported (by omega)).2 hinvoked
  have hsum : t.successfulRuns + 1 + t.failedRuns = t.successfulRuns + t.failedRuns + 1 := by
    omega
  exact runCounted_of_row hrow hsum (iff_of_true hfinished rfl)

/-- The failure callback has counted it, and the job has not finished. -/
theorem counted_of_failure (hran : Ran (muted env) q job path w j₁ r₁ w₁ j' r' w' es path')
    (hreported : Reported q job.name ((execution (muted env) q job path).run w))
    (htask : TaskJob env env' (.ok ()) t.id job) (hsame : SameCallbacks job j₁)
    (hfind : w₁.tasks.find? t.id = some t) (hwaits : Waits env' t) {x : PyError}
    (hfails : Fails (muted env) job.name j₁ x w₁ r' w' es) (hexception : x.isException = true)
    {f : JobModel → Py CallOutcome} (hcb : onFailure (muted env) j₁ = some (.ok f)) :
    RunCounted q job.name t ((execution (muted env) q job path).run w) := by
  have hid : taskId j₁ = some t.id := hsame.task.trans htask.task
  have hcounted : row t.id ((j₁.call f).exec w₁)
      = some (core { t with failedRuns := t.failedRuns + 1 }) :=
    row_exec_call (g := fun t now => { t with
        jobName := none, failedRuns := t.failedRuns + 1, lastFailedRun := some now })
      htask.failure (resolve_of_onFailure hsame htask hcb) rfl hid hfind (fun _ => rfl) hwaits rfl
  have hrow := row_of_ran hran t.id
  rw [hfails.failing f hcb hexception, hcounted] at hrow
  have hinvoked : failures (muted env) j₁ x = 1 := failures_eq_one_iff.2 ⟨hexception, f, hcb⟩
  have hnot : ¬ Finished q job.name ((execution (muted env) q job path).run w) := by
    rw [finished_iff_of_ran hran hreported (by rw [hfails.failures]; omega), hfails.successes]
    omega
  have hsum : t.successfulRuns + (t.failedRuns + 1) = t.successfulRuns + t.failedRuns + 1 := by
    omega
  refine runCounted_of_row hrow hsum (iff_of_false hnot fun hruns => ?_)
  have hruns' : t.successfulRuns = t.successfulRuns + 1 := hruns
  omega

end Ran

theorem counted_of_orderly (hs : job.serializable = true)
    (horderly : Orderly (muted env) q job path w)
    (hreported : Reported q job.name ((execution (muted env) q job path).run w))
    (htask : TaskJob env env' mail t.id job)
    (hfind : ((produced (muted env) q job path).exec w).tasks.find? t.id = some t)
    (hwaits : Waits env' t) (hmails : RaisesEarly (muted env) q job path w → mail = .ok ()) :
    RunCounted q job.name t ((execution (muted env) q job path).run w) := by
  obtain ⟨j₁, r₁, w₁, j', r', w', es, path', hran⟩ :=
    @exists_ran (muted env) q job path w (userCode_muted env) hs
  obtain ⟨t₁, hmade⟩ := hran.made
  have hsame := sameCallbacks_of_produced hs hmade
  rw [Prog.exec_eq_of_run hmade] at hfind
  -- the condition speaks of the run up to the callback, which is the one of `hran`
  cases horderly with
  | success j₂ j₃ rv f o w₂ w₃ t₂ t₃ hp hcb hreturns hmeta hresult hfree =>
      rw [hmade] at hp
      cases hp
      have hends := hran.ends
      unfold EndsAs at hends
      dsimp only at hends
      rw [hcb] at hends
      dsimp only at hends
      rw [hreturns] at hends
      obtain ⟨hinvoked, -, -, hlast, -⟩ := hends
      rw [← Prog.exec_eq_of_run hreturns] at hlast
      exact counted_of_success hran hreported htask hsame hfind hwaits hcb hlast hinvoked
  | failure j₂ x r₂ f w₂ t₂ hp hraised hexception hcb =>
      rw [hmade] at hp
      cases hp
      obtain rfl : mail = .ok () := hmails ⟨j₁, x, r₁, w₁, t₁, hmade, hraised, hexception⟩
      have hfails := fails_of_raised hran.ends hraised
      exact counted_of_failure hran hreported htask hsame hfind hwaits hfails hexception hcb

/-- Where an exception is raised early, the failure callback is there. -/
theorem onFailure_of_raisesEarly {j : JobModel} {x : PyError} {r : Except PyError PyValue} {w₁ : World}
    {es : List Event} (horderly : Orderly env q job path w)
    (hp : (produced env q job path).run w = ⟨.ok (j, r), w₁, es⟩)
    (hraised : r = .error x ∨ (∃ rv, r = .ok rv) ∧ onSuccess env j = some (.error x)) :
    ∃ f, onFailure env j = some (.ok f) := by
  cases horderly with
  | success j₂ j₃ rv f o w₂ w₃ t₂ t₃ hp' hcb hreturns hmeta hresult hfree =>
      rw [hp] at hp'
      cases hp'
      rcases hraised with hr | ⟨-, hresolve⟩
      · cases hr
      · rw [hresolve] at hcb
        cases hcb
  | failure j₂ y r₂ f w₂ t₂ hp' hraised' hexception hcb =>
      rw [hp] at hp'
      cases hp'
      exact ⟨f, hcb⟩

/-- A task whose failure callback cannot mail has counted nothing. -/
theorem not_runCounted_of_unmailed {x : PyError} (hs : job.serializable = true)
    (horderly : Orderly (muted env) q job path w) (hearly : RaisesEarly (muted env) q job path w)
    (htask : TaskJob env env' (.error x) t.id job)
    (hfind : ((produced (muted env) q job path).exec w).tasks.find? t.id = some t) :
    ¬ RunCounted q job.name t ((execution (muted env) q job path).run w) := by
  obtain ⟨j, y, r, w₁, es, hp, hraised, hexception⟩ := hearly
  obtain ⟨f, hcb⟩ := onFailure_of_raisesEarly horderly hp hraised
  have hresolve := resolve_of_onFailure (sameCallbacks_of_produced hs hp) htask hcb
  have hrow := row_of_failure hs hp hraised hexception hcb t.id
  rw [row_exec_call_unmailed htask.failure hresolve] at hrow
  rw [Prog.exec_eq_of_run hp] at hfind
  rintro ⟨t', ht', hsum, -⟩
  have hcore : core t' = core t := by
    have hboth : (some t').map core = (some t).map core := by
      rw [← ht', ← hfind]
      exact hrow
    exact Option.some.inj hboth
  have hsuccesses : t'.successfulRuns = t.successfulRuns := by
    show (core t').successfulRuns = (core t).successfulRuns
    rw [hcore]
  have hfailures : t'.failedRuns = t.failedRuns := by
    show (core t').failedRuns = (core t).failedRuns
    rw [hcore]
  omega

end Counting

/-- **Exactly when an execution is reported rightly, to the task, too.** -/
theorem reported_to_task_iff (env : Env) (q : Queue) (job : JobModel) (path : Path) (w : World) :
    ReportedToTask env q job path w ↔
      job.serializable = true ∧ Orderly (muted env) q job path w ∧ MailsOut env q job path w := by
  constructor
  · intro h
    obtain ⟨hs, horderly⟩ := (reported_iff_orderly env q job path w).1 h.reported
    refine ⟨hs, horderly, fun hearly env' mail t htask hfind hwaits => ?_⟩
    cases mail with
    | ok u => rfl
    | error x =>
        exact absurd (h.counted env' _ t htask hfind hwaits)
          (not_runCounted_of_unmailed hs horderly hearly htask hfind)
  · rintro ⟨hs, horderly, hmails⟩
    have hreported := (reported_iff_orderly env q job path w).2 ⟨hs, horderly⟩
    exact ⟨hreported, fun env' mail t htask hfind hwaits =>
      counted_of_orderly hs horderly hreported htask hfind hwaits fun hearly =>
        hmails hearly env' mail t htask hfind hwaits⟩

/-! ## A sample -/

/-- A job with both callbacks. -/
def sampleJob (func onSuccess : String) : JobModel :=
  { Sample.job "a" with
    funcName := func, successCallbackName := some onSuccess, failureCallbackName := some "ok" }

/-- Where the success callback raises, both callbacks are invoked; where the value that the callable
returned cannot be encoded, the success callback is, and the job has failed. -/
theorem reported_wrongly :
    (∀ path ∈ [Path.sync, .worker (Sample.worker "w")], ¬ Reported Sample.queue "a"
      ((execution (muted Sample.env) Sample.queue (sampleJob "ok" "fail") path).run
        (World.init 0))) ∧
    (∀ path ∈ [Path.sync, .worker (Sample.worker "w")], ¬ Reported Sample.queue "a"
      ((execution (muted Sample.env) Sample.queue (sampleJob "bad" "ok") path).run
        (World.init 0))) := by
  refine ⟨fun path hpath hreported => ?_, fun path hpath hreported => ?_⟩
  · have hboth : ∀ path ∈ [Path.sync, .worker (Sample.worker "w")],
        ((execution (muted Sample.env) Sample.queue (sampleJob "ok" "fail") path).run
          (World.init 0)).trace = [.called "a", .successCallback "a", .failureCallback "a"] := by
      decide +kernel
    have hone := hreported.one
    rw [hboth path hpath] at hone
    cases hone
  · have hlate : ∀ path ∈ [Path.sync, .worker (Sample.worker "w")],
        ((execution (muted Sample.env) Sample.queue (sampleJob "bad" "ok") path).run
          (World.init 0)).trace = [.called "a", .successCallback "a"] ∧
        ((execution (muted Sample.env) Sample.queue (sampleJob "bad" "ok") path).run
          (World.init 0)).state.status "a" = some .failed := by
      decide +kernel
    obtain ⟨htrace, hstatus⟩ := hlate path hpath
    have hagrees := hreported.agrees
    rw [htrace] at hagrees
    have hfinished := (hagrees.2 rfl).record .failed hstatus
    cases hfinished

end DailyScheduler.Callbacks
