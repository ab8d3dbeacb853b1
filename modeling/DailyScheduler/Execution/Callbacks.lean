import DailyScheduler.Registries.Lifetime

set_option autoImplicit false

/-! # Which callback is invoked

`queue_perform_job` calls the success callback inside its `try` block, and what comes after the job's
callable (saving the record, the callback, the registries, the result) is inside the `try` block of
`worker_perform_job` or `run_sync`. So a fault at a late point reports a failure after the success
callback. Here is exactly when an execution invokes one of the two callbacks, and that of its outcome.
-/

namespace DailyScheduler.Callbacks

open AtomicProg Lifetime

/-! ## Executions -/

/-- Who executes the job. -/
inductive Path where
  | worker (wk : Worker)
  | sync

/-- The name under which the job is executed. -/
def Path.name : Path → WorkerName
  | .worker wk => wk.name
  | .sync => "sync"

/-- `worker_perform_job` or `run_sync`, and the object it leaves. -/
def execution (env : Env) (q : Queue) (job : JobModel) : Path → Py JobModel
  | .worker wk => do
      let (_, job, _) ← wk.workerPerformJob env job q
      pure job
  | .sync => do
      let (job, _) ← q.runSync env job
      pure job

/-- The same settings and user code, and what the user code does is not recorded: the events of an
execution are its own. -/
def muted (env : Env) : Env where
  config := env.config
  queues := env.queues
  callableFunc name := (env.callableFunc name).map fun f job => do
    let o ← (f job).mute
    pure { o with coroutine := o.coroutine.map Prog.mute }
  croniter := env.croniter
  callableValue := env.callableValue
  fromisoformat := env.fromisoformat
  useTz := env.useTz
  naiveTimestamp := env.naiveTimestamp

/-- A step without events. -/
def Silent (_ _ : World) (es : List Event) : Prop := es = []

theorem userCode_muted (env : Env) : UserCode (muted env) Silent := by
  intro name f job hf
  have hf' : (env.callableFunc name).map (fun f job => do
      let o ← (f job).mute
      pure { o with coroutine := o.coroutine.map Prog.mute }) = .ok f := hf
  cases hg : env.callableFunc name with
  | error x =>
      rw [hg] at hf'
      cases hf'
  | ok g =>
      rw [hg] at hf'
      cases hf'
      refine (Prog.mute_steps (g job)).bind fun o _ p hp => ?_
      obtain ⟨p', -, rfl⟩ := Option.map_eq_some_iff.1 hp
      exact Prog.mute_steps p'

/-! ## What an execution reports -/

/-- The job has ended with status FINISHED, as far as the object and the record tell, and is not in
the failed registry. -/
structure Finished (q : Queue) (n : JobName) (o : Prog.Outcome World Event PyError JobModel) :
    Prop where
  object : ∃ j, o.val = .ok j ∧ j.status = .finished
  record : ∀ s, o.state.status n = some s → s = .finished
  registry : ¬ o.state.inRegistry q.name .failed n

/-- One of the two callbacks was invoked, once, and it was the success callback if and only if the
job has ended as finished. -/
structure Reported (q : Queue) (n : JobName) (o : Prog.Outcome World Event PyError JobModel) :
    Prop where
  one : o.trace.count (.successCallback n) + o.trace.count (.failureCallback n) = 1
  agrees : Finished q n o ↔ o.trace.count (.successCallback n) = 1

/-! ## Executions that end in order -/

/-- What the job's callable makes: the value, after a coroutine was run, or what was raised. The
record is saved when the callable has returned, which raises when its `meta` cannot be encoded. -/
def produce (env : Env) (job : JobModel) : Py (After PyValue) :=
  After.next (callFunc env job) fun job o =>
  After.next (job.save true) fun job _ =>
  runCoroutine job o

/-- An execution up to there. -/
def produced (env : Env) (q : Queue) (job : JobModel) : Path → Py (After PyValue)
  | .worker wk => do
      let wk ← wk.workerBeforeExecution env job
      After.next (job.prepareForExecution wk.name q.activeJobRegistry) fun job _ => do
        job.persist
        produce env job
  | .sync =>
      After.next (job.prepareForExecution "sync" q.activeJobRegistry) fun job _ => do
        job.persist
        produce env job

/-- The success callback of the job. -/
def onSuccess (env : Env) (j : JobModel) : Option (Except PyError (JobModel → Py CallOutcome)) :=
  j.successCallbackName.map fun name => Callback.resolve env name j.successCallbackTimeout

/-- The failure callback of the job. -/
def onFailure (env : Env) (j : JobModel) : Option (Except PyError (JobModel → Py CallOutcome)) :=
  j.failureCallbackName.map fun name => Callback.resolve env name j.failureCallbackTimeout

/-- Either the callable and the success callback return, and what comes after that can be done: the
`meta` and the return value can be encoded, and the job is not in the failed registry. Or an
`Exception` is raised before the success callback is invoked, and there is a failure callback that
can be invoked. -/
inductive Orderly (env : Env) (q : Queue) (job : JobModel) (path : Path) (w : World) : Prop
  | success (j j' : JobModel) (rv : PyValue) (f : JobModel → Py CallOutcome) (o : CallOutcome)
      (w₁ w₂ : World) (t t' : List Event)
      (hproduced : (produced env q job path).run w = ⟨.ok (j, .ok rv), w₁, t⟩)
      (hcallback : onSuccess env j = some (.ok f))
      (hreturns : (j.call f).run w₁ = ⟨.ok (j', .ok o), w₂, t'⟩)
      (hmeta : j'.serializable = true) (hresult : j'.successTtl = 0 ∨ rv.encodes = true)
      (hfree : ¬ w₂.inRegistry q.name .failed job.name)
  | failure (j : JobModel) (x : PyError) (r : Except PyError PyValue)
      (f : JobModel → Py CallOutcome) (w₁ : World) (t : List Event)
      (hproduced : (produced env q job path).run w = ⟨.ok (j, r), w₁, t⟩)
      (hraised : r = .error x ∨ ((∃ rv, r = .ok rv) ∧ onSuccess env j = some (.error x)))
      (hexception : x.isException = true) (hcallback : onFailure env j = some (.ok f))

/-! ## `queue_perform_job` -/

section Performing

variable {env : Env} {n : JobName} {j : JobModel} {w : World}

/-- Steps that invoke no callback. -/
def NoCallback (_ _ : World) (es : List Event) : Prop :=
  ∀ e ∈ es, ∀ n, e ≠ .successCallback n ∧ e ≠ .failureCallback n

theorem noCallback_nil (w w' : World) : NoCallback w w' [] := fun _ he => (List.not_mem_nil he).elim

theorem count_eq_zero {α : Type} {p : Py α} {Q : α → Prop} (h : p.Steps NoCallback Q) (w : World)
    (n : JobName) : (p.run w).trace.count (.successCallback n) = 0 ∧
      (p.run w).trace.count (.failureCallback n) = 0 := by
  have htrace := h.trace w
  exact ⟨List.count_eq_zero.2 fun he => (htrace _ he n).1 rfl,
    List.count_eq_zero.2 fun he => (htrace _ he n).2 rfl⟩

/-- The job `n` is being executed. -/
structure Running (n : JobName) (j : JobModel) : Prop where
  name : j.name = n
  status : j.status = .started

theorem performs_running (env : Env) (n : JobName) : Performs env (Running n) AnyStep where
  saved := fun _ h => ⟨h.name, h.status⟩
  metadata := fun _ _ h => ⟨h.name, h.status⟩
  same := fun _ => trivial
  save := fun _ _ _ _ => trivial
  persist := fun _ _ _ => trivial
  called := fun _ _ _ => trivial
  success := fun _ _ _ => trivial
  failure := fun _ _ _ => trivial
  user := fun _ f job _ => (anySteps (f job)).mono (fun _ _ _ => id) fun _ _ p _ => anySteps p

/-- The object a method left, with the property `A`, whatever became of it. -/
theorem returns_of_steps {α : Type} {A : JobModel → Prop} {R : World → World → List Event → Prop}
    {p : Py (After α)} (h : p.Steps R fun r => A r.1) (hval : ∃ r, (p.run w).val = .ok r) :
    ∃ j' r w' t, p.run w = ⟨.ok (j', r), w', t⟩ ∧ A j' := by
  obtain ⟨⟨j', r⟩, hr⟩ := hval
  refine ⟨j', r, (p.run w).state, (p.run w).trace, ?_, h.val w hr⟩
  rw [← hr]

theorem run_next_error {α β : Type} {p : Py (After α)} {f : JobModel → α → Py (After β)}
    {x : PyError} {w' : World} {t : List Event} (h : p.run w = ⟨.ok (j, .error x), w', t⟩) :
    (After.next p f).run w = ⟨.ok (j, .error x), w', t⟩ := by
  unfold After.next
  rw [Prog.run_bind, h, Prog.Outcome.andThen_ok]
  simp [After.andThen]

theorem val_next {α β : Type} {p : Py (After α)} {f : JobModel → α → Py (After β)} {w : World}
    (hp : ∃ r, (p.run w).val = .ok r) (hf : ∀ j a w, ∃ r, ((f j a).run w).val = .ok r) :
    ∃ r, ((After.next p f).run w).val = .ok r := by
  obtain ⟨⟨j, r⟩, hr⟩ := hp
  unfold After.next
  rw [Prog.run_bind]
  unfold Prog.Outcome.andThen
  rw [hr]
  cases r with
  | error x => exact ⟨_, rfl⟩
  | ok a => exact hf j a _

theorem val_call (j : JobModel) (f : JobModel → Py CallOutcome) (w : World) :
    ∃ r, ((j.call f).run w).val = .ok r := by
  unfold JobModel.call
  rw [Prog.run_bind, Prog.run_attempt, Prog.Outcome.andThen_ok]
  dsimp only
  cases ((f j).run w).val with
  | error x => exact ⟨_, rfl⟩
  | ok o =>
      dsimp only
      cases o.val <;> exact ⟨_, rfl⟩

/-- Calling user code never raises past the call, and changes `meta` only. -/
theorem run_call (hU : UserCode env Silent) {name : String} {f : JobModel → Py CallOutcome}
    (hf : env.callableFunc name = .ok f) (hj : Running n j) (w : World) :
    ∃ j' r w' t, (j.call f).run w = ⟨.ok (j', r), w', t⟩ ∧ Running n j' ∧
      t.count (.successCallback n) = 0 ∧ t.count (.failureCallback n) = 0 := by
  have hsilent : UserCode env NoCallback := hU.mono fun w w' es hs => by
    subst hs
    exact noCallback_nil w w'
  have hcount := count_eq_zero (call_steps hsilent hf hj.name) w n
  have hrunning := ((performs_running env n).call_steps hf hj).mono (fun _ _ _ => id)
    fun _ h => h.1
  obtain ⟨j', r, w', t, hrun, hj'⟩ := returns_of_steps hrunning (val_call j f w)
  rw [hrun] at hcount
  exact ⟨j', r, w', t, hrun, hj', hcount⟩

/-- Invoking a callback that is there. -/
theorem run_callCallback {name : Option String} {timeout : Option Int} {e : Event}
    {f : JobModel → Py CallOutcome} {j' : JobModel} {r : Except PyError CallOutcome} {w' : World}
    {t : List Event}
    (hf : (name.map fun name => Callback.resolve env name timeout) = some (.ok f))
    (hcall : (j.call f).run w = ⟨.ok (j', r), w', t⟩) :
    (j.callCallback env name timeout e).run w = ⟨.ok (j', r.map fun _ => ()), w', e :: t⟩ := by
  obtain ⟨name, rfl, hresolve⟩ := Option.map_eq_some_iff.1 hf
  unfold JobModel.callCallback
  dsimp only
  rw [hresolve]
  dsimp only
  rw [Prog.run_bind, Prog.run_emit, Prog.Outcome.andThen_ok]
  unfold After.next
  rw [Prog.run_bind, hcall, Prog.Outcome.andThen_ok]
  cases r <;> simp [After.andThen, Except.map]

/-- A callback that cannot be resolved. -/
theorem run_callCallback_error {name : Option String} {timeout : Option Int} {e : Event}
    {x : PyError} (hx : (name.map fun name => Callback.resolve env name timeout) = some (.error x))
    (w : World) :
    (j.callCallback env name timeout e).run w = ⟨.ok (j, .error x), w, []⟩ := by
  obtain ⟨name, rfl, hresolve⟩ := Option.map_eq_some_iff.1 hx
  unfold JobModel.callCallback
  dsimp only
  rw [hresolve]
  rfl

theorem run_callCallback_none {name : Option String} {timeout : Option Int} {e : Event}
    (h : (name.map fun name => Callback.resolve env name timeout) = none) (w : World) :
    (j.callCallback env name timeout e).run w = ⟨.ok (j, .ok ()), w, []⟩ := by
  obtain rfl := Option.map_eq_none_iff.1 h
  rfl

/-- How often the failure callback is invoked when `x` is raised. -/
def failures (env : Env) (j : JobModel) (x : PyError) : Nat :=
  match onFailure env j with
  | some (.ok _) => if x.isException then 1 else 0
  | _ => 0

/-- The failure callback, if it is invoked, makes the world `w'` of `w`. -/
def Failing (env : Env) (j : JobModel) (x : PyError) (w w' : World) : Prop :=
  ∀ f, onFailure env j = some (.ok f) → x.isException = true → w' = (j.call f).exec w

theorem callableFunc_of_callback {name : Option String} {timeout : Option Int}
    {f : JobModel → Py CallOutcome}
    (h : (name.map fun name => Callback.resolve env name timeout) = some (.ok f)) :
    ∃ name, env.callableFunc name = .ok f := by
  obtain ⟨name, -, hf⟩ := Option.map_eq_some_iff.1 h
  exact ⟨name, Callback.callableFunc_of_resolve hf⟩

/-- The `except` clause raises. -/
theorem run_exceptClause (hU : UserCode env Silent) (hj : Running n j) (x : PyError) (w : World) :
    ∃ j' y w' t, (exceptClause env (j, .error x)).run w = ⟨.ok (j', .error y), w', t⟩ ∧
      Running n j' ∧ t.count (.successCallback n) = 0 ∧
      t.count (.failureCallback n) = failures env j x ∧ Failing env j x w w' := by
  unfold exceptClause failures
  dsimp only
  by_cases hx : x.isException = true
  · simp only [hx, if_true]
    unfold After.next JobModel.callFailureCallback
    rw [Prog.run_bind]
    cases hcb : onFailure env j with
    | none =>
        rw [run_callCallback_none hcb, Prog.Outcome.andThen_ok]
        refine ⟨j, x, w, [], rfl, hj, rfl, rfl, fun f hf => ?_⟩
        rw [hcb] at hf
        cases hf
    | some o =>
        cases o with
        | error y =>
            rw [run_callCallback_error hcb, Prog.Outcome.andThen_ok]
            refine ⟨j, y, w, [], rfl, hj, rfl, rfl, fun f hf => ?_⟩
            rw [hcb] at hf
            cases hf
        | ok f =>
            obtain ⟨name, hf⟩ := callableFunc_of_callback hcb
            obtain ⟨j', r, w', t, hcall, hrunning, hs, hfail⟩ := run_call hU hf hj w
            rw [run_callCallback hcb hcall, Prog.Outcome.andThen_ok, hj.name]
            refine ⟨j', match r with | .error y => y | .ok _ => x, w',
              .failureCallback n :: t, ?_, hrunning, ?_, ?_, fun f' hf' _ => ?_⟩
            · cases r <;> simp [After.andThen, Except.map]
            · simpa using hs
            · simpa using hfail
            · rw [hcb] at hf'
              cases hf'
              exact (Prog.exec_eq_of_run hcall).symm
  · simp only [hx, if_false, Bool.false_eq_true]
    refine ⟨j, x, w, [], rfl, hj, rfl, ?_, fun _ _ hexc => (hx hexc).elim⟩
    cases onFailure env j with
    | none => rfl
    | some o => cases o <;> rfl

/-- What comes after the callable in the `try` block. -/
def succeed (env : Env) (j : JobModel) (rv : PyValue) : Py (After PyValue) :=
  After.next (j.callSuccessCallback env) fun j _ => pure (j, .ok rv)

theorem performBody_eq (env : Env) (job : JobModel) :
    performBody env job = After.next (produce env job) (succeed env) := by
  unfold performBody produce
  rw [next_assoc]
  refine congrArg (After.next (callFunc env job)) (funext fun j => funext fun o => ?_)
  unfold afterCall
  rw [next_assoc]
  rfl

theorem val_produce (env : Env) (j : JobModel) (w : World) :
    ∃ r, ((produce env j).run w).val = .ok r := by
  refine val_next ?_ fun j o w => val_next ?_ fun j _ w => ?_
  · unfold callFunc
    cases env.callableFunc j.funcName with
    | error x => exact ⟨_, rfl⟩
    | ok f =>
        dsimp only
        rw [Prog.run_bind, Prog.run_emit, Prog.Outcome.andThen_ok]
        exact val_call j f w
  · cases hs : j.serializable with
    | true => exact ⟨_, congrArg Prog.Outcome.val (JobModel.run_save hs true w)⟩
    | false => exact ⟨_, congrArg Prog.Outcome.val (JobModel.run_save_error hs true w)⟩
  · unfold runCoroutine
    cases o.coroutine with
    | none => exact ⟨_, rfl⟩
    | some p =>
        dsimp only
        rw [Prog.run_bind, Prog.run_attempt, Prog.Outcome.andThen_ok]
        dsimp only
        cases (p.run w).val <;> exact ⟨_, rfl⟩

/-- What stays of the object up to the end of the callable. -/
theorem produce_steps {A : JobModel → Prop} {R : World → World → List Event → Prop}
    (h : Performs env A R) (hj : A j) : (produce env j).Steps R fun r => A r.1 := by
  have hfunc : (callFunc env j).Steps R fun r => A r.1 ∧ ∀ o, r.2 = .ok o →
      ∀ p, o.coroutine = some p → p.Steps R fun _ => True := by
    unfold callFunc
    cases hf : env.callableFunc j.funcName with
    | error x => exact ⟨hj, fun o ho => by cases ho⟩
    | ok f => exact (Prog.Steps.emit fun w => h.called w j hj).bind fun _ _ => h.call_steps hf hj
  refine After.next_steps hfunc (fun j o hr => ?_) fun _ _ hr => hr.1
  refine After.next_steps (h.save_steps hr.1 true) (fun j _ hj => ?_) fun _ _ hj => hj
  exact h.runCoroutine_steps hj (hr.2 o rfl)

/-- Up to the end of the callable no callback is invoked. -/
theorem run_produce (hU : UserCode env Silent) (hj : Running n j) (w : World) :
    ∃ j' r w' t, (produce env j).run w = ⟨.ok (j', r), w', t⟩ ∧ Running n j' ∧
      t.count (.successCallback n) = 0 ∧ t.count (.failureCallback n) = 0 := by
  have hsilent : UserCode env NoCallback := hU.mono fun w w' es hs => by
    subst hs
    exact noCallback_nil w w'
  have hcalled : ∀ n w, NoCallback w w [.called n] := by
    intro n w e he m
    obtain rfl := List.mem_singleton.1 he
    exact ⟨by simp, by simp⟩
  have hsave : ∀ j : JobModel, (j.save true).Steps NoCallback fun r => r.1.name = j.name :=
    fun j => Prog.Steps.ite (fun _ => (Prog.Steps.write fun w => noCallback_nil w _).bind
      fun _ _ => rfl) fun _ => rfl
  have hsteps : (produce env j).Steps NoCallback fun _ => True := by
    have hfunc : (callFunc env j).Steps NoCallback fun r => Named n r ∧ ∀ o, r.2 = .ok o →
        ∀ p, o.coroutine = some p → p.Steps NoCallback fun _ => True := by
      unfold callFunc
      cases hf : env.callableFunc j.funcName with
      | error x => exact ⟨hj.name, fun o ho => by cases ho⟩
      | ok f =>
          refine (Prog.Steps.emit (hcalled j.name)).bind fun _ _ => ?_
          exact call_steps hsilent hf hj.name
    refine After.next_steps hfunc (fun j o hr => ?_) fun _ _ _ => trivial
    refine After.next_steps (hsave j) (fun j' _ _ => ?_) fun _ _ _ => trivial
    exact (runCoroutine_steps rfl (hr.2 o rfl)).of_true
  have hrunning : (produce env j).Steps AnyStep fun r => Running n r.1 :=
    produce_steps (performs_running env n) hj
  have hcount := count_eq_zero hsteps w n
  obtain ⟨j', r, w', t, hrun, hj'⟩ := returns_of_steps hrunning (val_produce env j w)
  rw [hrun] at hcount
  exact ⟨j', r, w', t, hrun, hj', hcount⟩

/-- A performance of the job ends with an exception after `x` was raised in `w`, before the success
callback. -/
structure Fails (env : Env) (n : JobName) (j : JobModel) (x : PyError) (w : World)
    (r' : Except PyError PyValue) (w' : World) (t : List Event) : Prop where
  raises : ∃ y, r' = .error y
  successes : t.count (.successCallback n) = 0
  failures : t.count (.failureCallback n) = failures env j x
  failing : Failing env j x w w'

/-- How a performance of the job ends, given what its callable made. -/
def EndsAs (env : Env) (n : JobName) (j : JobModel) (r : Except PyError PyValue) (w : World)
    (j' : JobModel) (r' : Except PyError PyValue) (w' : World) (t : List Event) : Prop :=
  match r with
  | .error x => Fails env n j x w r' w' t
  | .ok rv =>
      match onSuccess env j with
      | none => r' = .ok rv ∧ t.count (.successCallback n) = 0 ∧ t.count (.failureCallback n) = 0
      | some (.error x) => Fails env n j x w r' w' t
      | some (.ok f) => t.count (.successCallback n) = 1 ∧
          match (j.call f).run w with
          | ⟨.ok (j₂, .ok _), w₂, _⟩ =>
              j' = j₂ ∧ r' = .ok rv ∧ w' = w₂ ∧ t.count (.failureCallback n) = 0
          | _ => ∃ y, r' = .error y

theorem run_performJob (hU : UserCode env Silent) (hj : Running n j) {j₁ : JobModel}
    {r₁ : Except PyError PyValue} {w₁ : World} {t₁ : List Event}
    (hp : (produce env j).run (w.persistJob n) = ⟨.ok (j₁, r₁), w₁, t₁⟩) :
    ∃ j' r' w' t, (queuePerformJob env j).run w = ⟨.ok (j', r'), w', t⟩ ∧ Running n j' ∧
      EndsAs env n j₁ r₁ w₁ j' r' w' t := by
  obtain ⟨_, _, _, _, hp', hrunning, hs₁, hf₁⟩ := run_produce hU hj (w.persistJob n)
  rw [hp] at hp'
  cases hp'
  have hperform : (queuePerformJob env j).run w
      = (After.next (produce env j) (succeed env) >>= exceptClause env).run (w.persistJob n) := by
    unfold queuePerformJob
    rw [performBody_eq, run_bind_of_quiet (JobModel.run_persist j w), hj.name]
  -- the `try` block comes to its end without an exception, or with one
  have hreturned : ∀ {j₂ rv w₂ t₂},
      (After.next (produce env j) (succeed env)).run (w.persistJob n)
        = ⟨.ok (j₂, .ok rv), w₂, t₂⟩ →
      (queuePerformJob env j).run w = ⟨.ok (j₂, .ok rv), w₂, t₂⟩ := by
    intro j₂ rv w₂ t₂ hbody
    rw [hperform, Prog.run_bind, hbody, Prog.Outcome.andThen_ok]
    simp [exceptClause]
  have hraised : ∀ {j₂ x w₂ t₂}, Running n j₂ →
      (After.next (produce env j) (succeed env)).run (w.persistJob n)
        = ⟨.ok (j₂, .error x), w₂, t₂⟩ →
      ∃ j' y w' t, (queuePerformJob env j).run w = ⟨.ok (j', .error y), w', t⟩ ∧ Running n j' ∧
        t.count (.successCallback n) = t₂.count (.successCallback n) ∧
        t.count (.failureCallback n) = t₂.count (.failureCallback n) + failures env j₂ x ∧
        Failing env j₂ x w₂ w' := by
    intro j₂ x w₂ t₂ hj₂ hbody
    obtain ⟨j', y, w', t, hrun, hj', hs, hf, hfailing⟩ := run_exceptClause hU hj₂ x w₂
    refine ⟨j', y, w', t₂ ++ t, ?_, hj', ?_, ?_, hfailing⟩
    · rw [hperform, Prog.run_bind, hbody, Prog.Outcome.andThen_ok, hrun]
    · rw [List.count_append, hs, Nat.add_zero]
    · rw [List.count_append, hf]
  cases r₁ with
  | error x =>
      have hbody : (After.next (produce env j) (succeed env)).run (w.persistJob n)
          = ⟨.ok (j₁, .error x), w₁, t₁⟩ := run_next_error hp
      obtain ⟨j', y, w', t, hrun, hj', hs, hf, hfailing⟩ := hraised hrunning hbody
      exact ⟨j', _, w', t, hrun, hj', ⟨y, rfl⟩, hs.trans hs₁, by rw [hf, hf₁, Nat.zero_add], hfailing⟩
  | ok rv =>
      unfold EndsAs
      dsimp only
      cases hcb : onSuccess env j₁ with
      | none =>
          have hbody : (After.next (produce env j) (succeed env)).run (w.persistJob n)
              = ⟨.ok (j₁, .ok rv), w₁, t₁⟩ := by
            rw [run_next_ok hp]
            unfold succeed JobModel.callSuccessCallback
            rw [run_next_of_quiet (run_callCallback_none hcb w₁)]
            simp
          exact ⟨j₁, _, w₁, t₁, hreturned hbody, hrunning, rfl, hs₁, hf₁⟩
      | some o =>
          cases o with
          | error x =>
              have hbody : (After.next (produce env j) (succeed env)).run (w.persistJob n)
                  = ⟨.ok (j₁, .error x), w₁, t₁⟩ := by
                rw [run_next_ok hp]
                unfold succeed JobModel.callSuccessCallback
                rw [run_next_error (run_callCallback_error hcb w₁)]
                simp
              obtain ⟨j', y, w', t, hrun, hj', hs, hf, hfailing⟩ := hraised hrunning hbody
              exact ⟨j', _, w', t, hrun, hj', ⟨y, rfl⟩, hs.trans hs₁, by rw [hf, hf₁, Nat.zero_add],
                hfailing⟩
          | ok f =>
              obtain ⟨name, hname⟩ := callableFunc_of_callback hcb
              obtain ⟨j₂, r₂, w₂, t₂, hcall, hj₂, hs₂, hf₂⟩ := run_call hU hname hrunning w₁
              have hcallback := run_callCallback (e := .successCallback j₁.name) hcb hcall
              rw [hrunning.name] at hcallback
              dsimp only
              rw [hcall]
              cases r₂ with
              | ok o =>
                  have hbody : (After.next (produce env j) (succeed env)).run (w.persistJob n)
                      = ⟨.ok (j₂, .ok rv), w₂, t₁ ++ .successCallback n :: t₂⟩ := by
                    rw [run_next_ok hp]
                    unfold succeed JobModel.callSuccessCallback
                    rw [hrunning.name, run_next_ok hcallback]
                    simp
                  refine ⟨j₂, _, w₂, _, hreturned hbody, hj₂, ?_, rfl, rfl, rfl, ?_⟩
                  · simp [hs₁, hs₂]
                  · simp [hf₁, hf₂]
              | error x =>
                  have hbody : (After.next (produce env j) (succeed env)).run (w.persistJob n)
                      = ⟨.ok (j₂, .error x), w₂, t₁ ++ .successCallback n :: t₂⟩ := by
                    rw [run_next_ok hp]
                    unfold succeed JobModel.callSuccessCallback
                    rw [hrunning.name, run_next_error hcallback]
                  obtain ⟨j', y, w', t, hrun, hj', hs, -, -⟩ := hraised hj₂ hbody
                  refine ⟨j', _, w', t, hrun, hj', ?_, y, rfl⟩
                  rw [hs]
                  simp [hs₁, hs₂]

end Performing

/-! ## The end of an execution -/

section Closing

variable {env : Env} {q : Queue} {n : JobName} {j : JobModel} {w : World}

/-- `job_handle_success`, where there is a value. -/
def keepResult (q : Queue) (r : After PyValue) : Py (After Unit) :=
  match r.2 with
  | .ok rv => q.jobHandleSuccess r.1 rv r.1.jobInfoTtl r.1.successTtl
  | .error x => pure (r.1, .error x)

/-- What an execution does once `queue_perform_job` has come to the end `r`. -/
def close (env : Env) (q : Queue) (r : After PyValue) : Path → Py JobModel
  | .worker wk => do
      let r ← keepResult q r
      match r.2 with
      | .ok _ => do
          let (_, job) ← wk.finishSuccess env r.1
          pure job
      | .error _ => do
          let (_, r) ← wk.handleJobFailure env r.1 q "traceback"
          pure r.1
  | .sync => do
      let r ← keepResult q r
      match r.2 with
      | .ok _ => pure r.1
      | .error x =>
          if x.isException then do
            let (job, _) ← q.jobHandleFailure env .failed r.1 "traceback"
            pure job
          else pure r.1

/-- `job_handle_failure` leaves the status it is given. -/
theorem run_jobHandleFailure_status (status : JobStatus) (j : JobModel) (w : World) :
    ∃ j' r w', (q.jobHandleFailure env status j "traceback").run w = ⟨.ok (j', r), w', []⟩ ∧
      j'.status = status := by
  cases hs : j.serializable with
  | true => exact ⟨_, _, _, Queue.run_jobHandleFailure env q status hs "traceback" w, rfl⟩
  | false => exact ⟨_, _, _, Queue.run_jobHandleFailure_error env q status hs "traceback" w, rfl⟩

theorem run_handleJobFailure_status (wk : Worker) (j : JobModel) (w : World) :
    ∃ wk' j' r w', (wk.handleJobFailure env j q "traceback").run w = ⟨.ok (wk', j', r), w', []⟩ ∧
      j'.status ≠ .finished := by
  let status : JobStatus :=
    if (w.workers.find? wk.name).bind (· .stoppedJobName) = some j.name then .stopped else .failed
  have hne : status ≠ .finished := by
    dsimp only [status]
    split <;> simp
  have hrun : (wk.handleJobFailure env j q "traceback").run w
      = (q.jobHandleFailure env status j "traceback" >>=
          countedAfter env { wk with model := wk.model.setCurrentJobName none }).run w := rfl
  obtain ⟨j', r, w', hfail, hstatus⟩ := @run_jobHandleFailure_status env q status j w
  rw [hrun, Prog.run_bind, hfail, Prog.Outcome.andThen_ok]
  unfold countedAfter
  cases r with
  | error x => exact ⟨_, j', _, _, rfl, fun h => hne (hstatus.symm.trans h)⟩
  | ok u => exact ⟨_, j', _, _, rfl, fun h => hne (hstatus.symm.trans h)⟩

/-- After an exception the job has not finished. -/
theorem run_close_of_kept {r : After PyValue} {path : Path} {j' : JobModel} {x : PyError}
    {w' : World} (hkept : (keepResult q r).run w = ⟨.ok (j', .error x), w', []⟩)
    (hx : x.isException = true ∨ j'.status ≠ .finished) :
    ∃ j'' w'', (close env q r path).run w = ⟨.ok j'', w'', []⟩ ∧ j''.status ≠ .finished := by
  cases path with
  | worker wk =>
      obtain ⟨wk', j'', r', w'', hfail, hstatus⟩ := @run_handleJobFailure_status env q wk j' w'
      refine ⟨j'', w'', ?_, hstatus⟩
      unfold close
      rw [run_bind_of_quiet hkept]
      dsimp only
      rw [run_bind_of_quiet hfail]
      rfl
  | sync =>
      unfold close
      rw [run_bind_of_quiet hkept]
      dsimp only
      by_cases hexc : x.isException = true
      · rw [if_pos hexc]
        obtain ⟨j'', r', w'', hfail, hstatus⟩ := @run_jobHandleFailure_status env q .failed j' w'
        rw [run_bind_of_quiet hfail]
        refine ⟨j'', w'', rfl, ?_⟩
        rw [hstatus]
        simp
      · rw [if_neg hexc]
        exact ⟨j', w', rfl, hx.resolve_left hexc⟩

theorem run_close_error (hj : j.status = .started) (x : PyError) (path : Path) :
    ∃ j' w', (close env q (j, .error x) path).run w = ⟨.ok j', w', []⟩ ∧ j'.status ≠ .finished := by
  have hkept : (keepResult q (j, .error x)).run w = ⟨.ok (j, .error x), w, []⟩ := rfl
  refine run_close_of_kept hkept (.inr ?_)
  rw [hj]
  simp

/-- The world after `job_handle_success` has stored everything. -/
def keptWorld (q : Queue) (j : JobModel) (rv : PyValue) (w : World) : World :=
  resultWorld j.name (resultOf j.name j.workerName .successful j.successTtl rv none w.now)
    (q.endedWorld .finished j j.jobInfoTtl .finished w)

theorem status_keptWorld (q : Queue) (j : JobModel) (rv : PyValue) (w : World) :
    (keptWorld q j rv w).status j.name = some .finished := by
  have hjobs : (keptWorld q j rv w).jobs = (q.endedWorld .finished j j.jobInfoTtl .finished w).jobs :=
    resultWorld_jobs _ _ _
  have hstatus : (q.endedWorld .finished j j.jobInfoTtl .finished w).status j.name
      = some .finished :=
    World.status_saveJob_self _ _ _ (written_status_ended .finished w.now)
  unfold World.status at hstatus ⊢
  rw [hjobs]
  exact hstatus

theorem failed_keptWorld (q : Queue) (j : JobModel) (rv : PyValue) (w : World) :
    (keptWorld q j rv w).inRegistry q.name .failed j.name ↔ w.inRegistry q.name .failed j.name := by
  have hregistry : (keptWorld q j rv w).registry
      = (j.moved j.jobInfoTtl q.activeJobRegistry q.finishedJobRegistry w).registry :=
    resultWorld_registry _ _ _
  rw [World.inRegistry_iff, World.inRegistry_iff, hregistry, ← World.inRegistry_iff,
    ← World.inRegistry_iff]
  unfold JobModel.moved
  dsimp only
  split
  · rw [World.inRegistry_zrem]
    exact and_iff_right fun h => by cases h.2.1
  · rw [World.inRegistry_zadd, World.inRegistry_zrem]
    constructor
    · rintro (⟨-, hk, -⟩ | ⟨-, h⟩)
      · cases hk
      · exact h
    · exact fun h => .inr ⟨fun hk => (by cases hk.2.1), h⟩

theorem status_of_expired {j' : JobModel} {ttl : Int} {s : JobStatus}
    (h : (j'.expired ttl w).status n = some s) : w.status n = some s := by
  unfold JobModel.expired at h
  split at h
  · unfold World.status World.deleteJob at h
    rw [TtlMap.find?_erase] at h
    split at h
    · cases h
    · exact h
  · split at h
    · unfold World.status World.expireJob at h
      rw [TtlMap.find?_expireAt] at h
      exact h
    · exact h

/-- Where everything can be stored the job has finished, with the record as the worker or the client
leaves it. -/
theorem run_close_ok {rv : PyValue} (hs : j.serializable = true)
    (hr : j.successTtl = 0 ∨ rv.encodes = true) (w : World) (path : Path) :
    ∃ j' w', (close env q (j, .ok rv) path).run w = ⟨.ok j', w', []⟩ ∧ j'.status = .finished ∧
      (∀ s, w'.status j.name = some s → s = .finished) ∧
      (w'.inRegistry q.name .failed j.name ↔ w.inRegistry q.name .failed j.name) := by
  have hkept : (keepResult q (j, .ok rv)).run w
      = ⟨.ok ((j.ended .finished w.now).saved, .ok ()), keptWorld q j rv w, []⟩ := by
    unfold keepResult keptWorld
    dsimp only
    rw [Queue.run_jobHandleSuccess q hs, if_pos hr]
  have hstatus : ∀ s, (keptWorld q j rv w).status j.name = some s → s = .finished := by
    intro s h
    rw [status_keptWorld] at h
    exact (Option.some_inj.1 h).symm
  cases path with
  | sync =>
      refine ⟨(j.ended .finished w.now).saved, keptWorld q j rv w, ?_, rfl, hstatus,
        failed_keptWorld q j rv w⟩
      unfold close
      rw [run_bind_of_quiet hkept]
      rfl
  | worker wk =>
      let j₁ := (j.ended .finished w.now).saved
      let v := (keptWorld q j rv w).saveWorker env.config (Worker.countSuccess wk.model j₁) false
      have hfinish : (wk.finishSuccess env j₁).run (keptWorld q j rv w)
          = ⟨.ok ({ wk with model := (Worker.countSuccess wk.model j₁).saved },
            if j₁.successTtl = 0 then { j₁ with saveAll := true } else j₁),
            j₁.expired j₁.successTtl v, []⟩ := by
        unfold Worker.finishSuccess Worker.saveModel
        simp only [Prog.run_bind, Prog.run_write, Prog.Outcome.andThen_ok, Prog.pure_eq, Prog.run_ret,
          JobModel.run_expire, List.nil_append]
        rfl
      refine ⟨if j₁.successTtl = 0 then { j₁ with saveAll := true } else j₁,
        j₁.expired j₁.successTtl v, ?_, ?_, ?_, ?_⟩
      · unfold close
        rw [run_bind_of_quiet hkept]
        dsimp only
        rw [run_bind_of_quiet hfinish]
        rfl
      · split <;> rfl
      · have hv : v.status j.name = (keptWorld q j rv w).status j.name := rfl
        exact fun s h => hstatus s (hv.symm.trans (status_of_expired h))
      · have hregistry : (j₁.expired j₁.successTtl v).registry = (keptWorld q j rv w).registry :=
          registry_expired _
        rw [World.inRegistry_iff, hregistry, ← World.inRegistry_iff]
        exact failed_keptWorld q j rv w

/-- Otherwise it has not. -/
theorem run_close_fault {rv : PyValue}
    (h : ¬ (j.serializable = true ∧ (j.successTtl = 0 ∨ rv.encodes = true))) (w : World)
    (path : Path) :
    ∃ j' w', (close env q (j, .ok rv) path).run w = ⟨.ok j', w', []⟩ ∧ j'.status ≠ .finished := by
  have hexception : (PyError.typeError "not JSON serializable").isException = true := rfl
  cases hs : j.serializable with
  | true =>
      have hr : ¬ (j.successTtl = 0 ∨ rv.encodes = true) := fun hr => h ⟨hs, hr⟩
      have hkept := Queue.run_jobHandleSuccess q hs rv j.jobInfoTtl j.successTtl w
      rw [if_neg hr] at hkept
      exact run_close_of_kept hkept (.inl hexception)
  | false =>
      exact run_close_of_kept (Queue.run_jobHandleSuccess_error q hs rv _ _ w) (.inl hexception)

end Closing

/-! ## Whole executions -/

section Executions

variable {env : Env} {q : Queue} {job : JobModel} {path : Path} {w : World}

/-- The world in which the execution is prepared. -/
def arrived (env : Env) (job : JobModel) (w : World) : Path → World
  | .worker wk => (wk.workerBeforeExecution env job).exec w
  | .sync => w

/-- The object that `prepare_for_execution` leaves. -/
def preparedJob (env : Env) (job : JobModel) (path : Path) (w : World) : JobModel :=
  (job.prepared path.name (arrived env job w path).now).saved

/-- The world in which `queue_perform_job` starts. -/
def preparedWorld (env : Env) (q : Queue) (job : JobModel) (path : Path) (w : World) : World :=
  (job.registered q.activeJobRegistry (arrived env job w path)).saveJob
    (job.prepared path.name (arrived env job w path).now) false

theorem running_prepared : Running job.name (preparedJob env job path w) := ⟨rfl, rfl⟩

theorem run_prepare (hs : job.serializable = true) :
    (job.prepareForExecution path.name q.activeJobRegistry).run (arrived env job w path)
      = ⟨.ok (preparedJob env job path w, .ok ()), preparedWorld env q job path w, []⟩ := by
  have hs' : (job.prepared path.name (arrived env job w path).now).serializable = true := hs
  rw [JobModel.run_prepareForExecution, JobModel.run_save hs']
  rfl

theorem run_produced (hs : job.serializable = true) : (produced env q job path).run w
    = (produce env (preparedJob env job path w)).run
        ((preparedWorld env q job path w).persistJob job.name) := by
  have hrest : (After.next (job.prepareForExecution path.name q.activeJobRegistry) fun job _ => do
      job.persist
      produce env job).run (arrived env job w path)
        = (produce env (preparedJob env job path w)).run
            ((preparedWorld env q job path w).persistJob job.name) := by
    rw [run_next_of_quiet (run_prepare hs), run_bind_of_quiet (JobModel.run_persist _ _)]
    rfl
  cases path with
  | worker wk =>
      have hbefore : (wk.workerBeforeExecution env job).run w
          = ⟨.ok (((wk.workerBeforeExecution env job).run w).val.toOption.getD wk),
              arrived env job w (.worker wk), []⟩ := rfl
      unfold produced
      rw [run_bind_of_quiet hbefore]
      exact hrest
  | sync => exact hrest

theorem next_keepResult (p : Py (After PyValue)) (q : Queue) :
    (After.next p fun job rv => q.jobHandleSuccess job rv job.jobInfoTtl job.successTtl)
      = p >>= keepResult q := by
  unfold After.next
  refine congrArg (p >>= ·) (funext fun r => ?_)
  obtain ⟨j, x | rv⟩ := r <;> rfl

/-- An execution is the performance of the job and its end. -/
theorem run_execution (hs : job.serializable = true) {r : After PyValue} {w' : World}
    {t : List Event} (h : (queuePerformJob env (preparedJob env job path w)).run
      (preparedWorld env q job path w) = ⟨.ok r, w', t⟩) :
    ∃ path', (execution env q job path).run w
      = ⟨((close env q r path').run w').val, ((close env q r path').run w').state,
        t ++ ((close env q r path').run w').trace⟩ := by
  have hprepare : (job.prepareForExecution path.name q.activeJobRegistry).run (arrived env job w path)
      = ⟨.ok (preparedJob env job path w, .ok ()), preparedWorld env q job path w, []⟩ :=
    run_prepare hs
  cases path with
  | worker wk =>
      let wk' : Worker := ((wk.workerBeforeExecution env job).run w).val.toOption.getD wk
      have hbefore : (wk.workerBeforeExecution env job).run w
          = ⟨.ok wk', arrived env job w (.worker wk), []⟩ := rfl
      refine ⟨.worker wk', ?_⟩
      have hstore : (wk'.performAndStore env job q).run (arrived env job w (.worker wk))
          = ((queuePerformJob env (preparedJob env job (.worker wk) w)) >>= keepResult q).run
              (preparedWorld env q job (.worker wk) w) := by
        unfold Worker.performAndStore
        rw [← next_keepResult]
        exact run_next_of_quiet hprepare
      have hclose : (execution env q job (.worker wk)).run w
          = ((queuePerformJob env (preparedJob env job (.worker wk) w)) >>= fun r =>
              close env q r (.worker wk')).run (preparedWorld env q job (.worker wk) w) := by
        unfold execution Worker.workerPerformJob
        dsimp only
        rw [Prog.bind_assoc, run_bind_of_quiet hbefore, Prog.bind_assoc, Prog.run_bind, hstore,
          ← Prog.run_bind, Prog.bind_assoc]
        refine congrArg (fun f => (queuePerformJob env (preparedJob env job (.worker wk) w)
          >>= f).run _) (funext fun r => ?_)
        unfold close
        refine congrArg (keepResult q r >>= ·) (funext fun r => ?_)
        obtain ⟨j, x | u⟩ := r
        · dsimp only
          rw [Prog.bind_assoc]
          refine congrArg (wk'.handleJobFailure env j q "traceback" >>= ·) (funext fun r => ?_)
          obtain ⟨wk'', j', x | u⟩ := r <;> rfl
        · dsimp only
          rw [Prog.bind_assoc]
          rfl
      rw [hclose, Prog.run_bind, h, Prog.Outcome.andThen_ok]
  | sync =>
      refine ⟨.sync, ?_⟩
      have hclose : (execution env q job .sync).run w
          = ((queuePerformJob env (preparedJob env job .sync w)) >>= fun r =>
              close env q r .sync).run (preparedWorld env q job .sync w) := by
        have hsync : (q.runSync env job).run w
            = (queuePerformJob env (preparedJob env job .sync w) >>= fun r =>
                keepResult q r >>= handled env q).run (preparedWorld env q job .sync w) := by
          unfold Queue.runSync
          rw [← Prog.bind_assoc, ← next_keepResult]
          exact run_next_of_quiet hprepare
        unfold execution
        dsimp only
        rw [Prog.run_bind, hsync, ← Prog.run_bind, Prog.bind_assoc]
        refine congrArg (fun f => (queuePerformJob env (preparedJob env job .sync w) >>= f).run _)
          (funext fun r => ?_)
        unfold close
        rw [Prog.bind_assoc]
        refine congrArg (keepResult q r >>= ·) (funext fun r => ?_)
        obtain ⟨j, x | u⟩ := r
        · unfold handled
          dsimp only
          split <;> rfl
        · rfl
      rw [hclose, Prog.run_bind, h, Prog.Outcome.andThen_ok]

/-- An object that cannot be encoded is not performed. -/
theorem trace_execution_of_unserializable (hs : job.serializable = false) :
    ((execution env q job path).run w).trace = [] := by
  have hs' : (job.prepared path.name (arrived env job w path).now).serializable = false := hs
  have hprepare : (job.prepareForExecution path.name q.activeJobRegistry).run (arrived env job w path)
      = ⟨.ok (job.prepared path.name (arrived env job w path).now,
          .error (.typeError "not JSON serializable")),
        job.registered q.activeJobRegistry (arrived env job w path), []⟩ := by
    rw [JobModel.run_prepareForExecution, JobModel.run_save_error hs']
  cases path with
  | worker wk =>
      let wk' : Worker := ((wk.workerBeforeExecution env job).run w).val.toOption.getD wk
      have hbefore : (wk.workerBeforeExecution env job).run w
          = ⟨.ok wk', arrived env job w (.worker wk), []⟩ := rfl
      have hstore : (wk'.performAndStore env job q).run (arrived env job w (.worker wk))
          = ⟨.ok (job.prepared wk.name (arrived env job w (.worker wk)).now,
              .error (.typeError "not JSON serializable")),
            job.registered q.activeJobRegistry (arrived env job w (.worker wk)), []⟩ :=
        run_next_error hprepare
      obtain ⟨wk'', j', r, w', hfail, -⟩ := @run_handleJobFailure_status env q wk'
        (job.prepared wk.name (arrived env job w (.worker wk)).now)
        (job.registered q.activeJobRegistry (arrived env job w (.worker wk)))
      unfold execution Worker.workerPerformJob
      dsimp only
      rw [Prog.bind_assoc, run_bind_of_quiet hbefore, Prog.bind_assoc, run_bind_of_quiet hstore]
      dsimp only
      rw [Prog.bind_assoc, run_bind_of_quiet hfail]
      cases r <;> rfl
  | sync =>
      have hsync := run_next_error (f := fun job _ => do
        let r ← After.next (queuePerformJob env job) fun job result =>
          q.jobHandleSuccess job result job.jobInfoTtl job.successTtl
        handled env q r) hprepare
      unfold execution
      dsimp only
      have hrun : (q.runSync env job).run w = _ := hsync
      rw [run_bind_of_quiet hrun]
      rfl

/-- An execution that has not finished is reported rightly by the failure callback. -/
theorem reported_iff_of_failed {o : Prog.Outcome World Event PyError JobModel} {n : JobName}
    {j : JobModel} (ho : o.val = .ok j) (hj : j.status ≠ .finished) : Reported q n o ↔
      o.trace.count (.successCallback n) = 0 ∧ o.trace.count (.failureCallback n) = 1 := by
  have hnot : ¬ Finished q n o := by
    rintro ⟨⟨j', ho', hj'⟩, -, -⟩
    rw [ho] at ho'
    cases ho'
    exact hj hj'
  constructor
  · rintro ⟨hone, hagrees⟩
    have hs : o.trace.count (.successCallback n) ≠ 1 := fun h => hnot (hagrees.2 h)
    omega
  · rintro ⟨hs, hf⟩
    refine ⟨by omega, fun h => (hnot h).elim, fun h => ?_⟩
    omega

theorem failures_eq_one_iff {j : JobModel} {x : PyError} : failures env j x = 1 ↔
    x.isException = true ∧ ∃ f, onFailure env j = some (.ok f) := by
  unfold failures
  cases onFailure env j with
  | none => simp
  | some o =>
      cases o with
      | error y => simp
      | ok f => by_cases hx : x.isException = true <;> simp [hx]

/-- An execution up to its end: what the callable made, and how `queue_perform_job` ended. -/
structure Ran (env : Env) (q : Queue) (job : JobModel) (path : Path) (w : World) (j₁ : JobModel)
    (r₁ : Except PyError PyValue) (w₁ : World) (j' : JobModel) (r' : Except PyError PyValue)
    (w' : World) (t : List Event) (path' : Path) : Prop where
  made : ∃ t₁, (produced env q job path).run w = ⟨.ok (j₁, r₁), w₁, t₁⟩
  running : Running job.name j'
  ends : EndsAs env job.name j₁ r₁ w₁ j' r' w' t
  whole : (execution env q job path).run w
    = ⟨((close env q (j', r') path').run w').val, ((close env q (j', r') path').run w').state,
      t ++ ((close env q (j', r') path').run w').trace⟩

theorem exists_ran (hU : UserCode env Silent) (hs : job.serializable = true) :
    ∃ j₁ r₁ w₁ j' r' w' t path', Ran env q job path w j₁ r₁ w₁ j' r' w' t path' := by
  have hrunning : Running job.name (preparedJob env job path w) := running_prepared
  obtain ⟨j₁, r₁, w₁, t₁, hproduce, -, -, -⟩ := run_produce hU hrunning
    ((preparedWorld env q job path w).persistJob job.name)
  obtain ⟨j', r', w', t, hperform, hj', hends⟩ := run_performJob hU hrunning hproduce
  obtain ⟨path', hexecution⟩ := run_execution hs hperform
  exact ⟨j₁, r₁, w₁, j', r', w', t, path', ⟨t₁, (run_produced hs).trans hproduce⟩, hj', hends,
    hexecution⟩

section Ran

variable {j₁ j' : JobModel} {r₁ r' : Except PyError PyValue} {w₁ w' : World} {t : List Event}
  {path' : Path}

/-- An exception is raised before the success callback is invoked. -/
theorem Ran.reported_iff_of_raised (h : Ran env q job path w j₁ r₁ w₁ j' r' w' t path') {x : PyError}
    (hfails : Fails env job.name j₁ x w₁ r' w' t)
    (hraised : r₁ = .error x ∨ (∃ rv, r₁ = .ok rv) ∧ onSuccess env j₁ = some (.error x)) :
    Reported q job.name ((execution env q job path).run w) ↔ Orderly env q job path w := by
  obtain ⟨t₁, hproduced⟩ := h.made
  obtain ⟨y, rfl⟩ := hfails.raises
  obtain ⟨j'', w'', hclose, hstatus⟩ := @run_close_error env q j' w' h.running.status y path'
  rw [h.whole, hclose, reported_iff_of_failed rfl hstatus]
  dsimp only
  rw [List.append_nil, hfails.successes, hfails.failures, and_iff_right rfl, failures_eq_one_iff]
  constructor
  · rintro ⟨hx, f, hf⟩
    exact .failure j₁ x r₁ f w₁ t₁ hproduced hraised hx hf
  · intro horderly
    cases horderly with
    | success j₂ j₃ rv f o w₂ w₃ t₂ t₃ hp hcb =>
        rw [hproduced] at hp
        cases hp
        rcases hraised with h | ⟨-, h⟩
        · cases h
        · rw [hcb] at h
          cases h
    | failure j₂ x' r₂ f w₂ t₂ hp hr hx hf =>
        rw [hproduced] at hp
        cases hp
        have hsame : x' = x := by
          rcases hraised with rfl | ⟨⟨rv, rfl⟩, hcb⟩
          · rcases hr with h | ⟨⟨rv, h⟩, -⟩
            · cases h
              rfl
            · cases h
          · rcases hr with h | ⟨-, h⟩
            · cases h
            · rw [hcb] at h
              cases h
              rfl
        rw [← hsame]
        exact ⟨hx, f, hf⟩

/-- In an orderly execution whose callable returned, the success callback is there. -/
theorem Orderly.invokes (horderly : Orderly env q job path w) {rv : PyValue} {t₁ : List Event}
    (hproduced : (produced env q job path).run w = ⟨.ok (j₁, .ok rv), w₁, t₁⟩)
    (hcb : ∀ x, onSuccess env j₁ ≠ some (.error x)) :
    ∃ f j₂ o w₂ t₂, onSuccess env j₁ = some (.ok f) ∧ (j₁.call f).run w₁ = ⟨.ok (j₂, .ok o), w₂, t₂⟩ ∧
      j₂.serializable = true ∧ (j₂.successTtl = 0 ∨ rv.encodes = true) ∧
      ¬ w₂.inRegistry q.name .failed job.name := by
  cases horderly with
  | success j₂ j₃ rv' f o w₂ w₃ t₂ t₃ hp hf hreturns hmeta hresult hfree =>
      rw [hproduced] at hp
      cases hp
      exact ⟨f, j₃, o, w₃, t₃, hf, hreturns, hmeta, hresult, hfree⟩
  | failure j₂ x r₂ f w₂ t₂ hp hr =>
      rw [hproduced] at hp
      cases hp
      rcases hr with h | ⟨-, h⟩
      · cases h
      · exact (hcb x h).elim

/-- The callable has returned, and there is no success callback. -/
theorem Ran.reported_iff_of_none {rv : PyValue}
    (h : Ran env q job path w j₁ (.ok rv) w₁ j' r' w' t path') (hcb : onSuccess env j₁ = none) :
    Reported q job.name ((execution env q job path).run w) ↔ Orderly env q job path w := by
  obtain ⟨t₁, hproduced⟩ := h.made
  have hends := h.ends
  unfold EndsAs at hends
  dsimp only at hends
  rw [hcb] at hends
  obtain ⟨rfl, hsuccesses, hfailures⟩ := hends
  have hcloses : ((close env q (j', .ok rv) path').run w').trace = [] := by
    by_cases hkeeps : j'.serializable = true ∧ (j'.successTtl = 0 ∨ rv.encodes = true)
    · obtain ⟨_, _, hclose, -⟩ := @run_close_ok env q j' rv hkeeps.1 hkeeps.2 w' path'
      rw [hclose]
    · obtain ⟨_, _, hclose, -⟩ := @run_close_fault env q j' rv hkeeps w' path'
      rw [hclose]
  refine iff_of_false (fun hreported => ?_) fun horderly => ?_
  · have hone := hreported.one
    rw [h.whole, hcloses, List.append_nil, hsuccesses, hfailures] at hone
    cases hone
  · have hno : ∀ x, onSuccess env j₁ ≠ some (.error x) := fun x hx => by
      rw [hcb] at hx
      cases hx
    obtain ⟨f, _, _, _, _, hf, -⟩ := horderly.invokes hproduced hno
    rw [hcb] at hf
    cases hf

/-- The success callback is invoked. -/
theorem Ran.reported_iff_of_invoked {rv : PyValue}
    (h : Ran env q job path w j₁ (.ok rv) w₁ j' r' w' t path') {f : JobModel → Py CallOutcome}
    (hcb : onSuccess env j₁ = some (.ok f)) :
    Reported q job.name ((execution env q job path).run w) ↔ Orderly env q job path w := by
  obtain ⟨t₁, hproduced⟩ := h.made
  have hends := h.ends
  unfold EndsAs at hends
  dsimp only at hends
  rw [hcb] at hends
  obtain ⟨hsuccesses, hcall⟩ := hends
  have hdone : Orderly env q job path w → ∃ j₂ o w₂ t₂, (j₁.call f).run w₁ = ⟨.ok (j₂, .ok o), w₂, t₂⟩ ∧
      j₂.serializable = true ∧ (j₂.successTtl = 0 ∨ rv.encodes = true) ∧
      ¬ w₂.inRegistry q.name .failed job.name := by
    intro horderly
    have hno : ∀ x, onSuccess env j₁ ≠ some (.error x) := fun x hx => by
      rw [hcb] at hx
      cases hx
    obtain ⟨f', j₂, o, w₂, t₂, hf, hrest⟩ := horderly.invokes hproduced hno
    rw [hcb] at hf
    cases hf
    exact ⟨j₂, o, w₂, t₂, hrest⟩
  -- the callback raised: a failure is stored after the success callback
  have hraised : (∃ y, r' = .error y) → (∀ j₂ o w₂ t₂, (j₁.call f).run w₁ ≠ ⟨.ok (j₂, .ok o), w₂, t₂⟩) →
      (Reported q job.name ((execution env q job path).run w) ↔ Orderly env q job path w) := by
    rintro ⟨y, rfl⟩ hno
    obtain ⟨j'', w'', hclose, hstatus⟩ := @run_close_error env q j' w' h.running.status y path'
    refine iff_of_false (fun hreported => ?_) fun horderly => ?_
    · rw [h.whole, hclose, reported_iff_of_failed rfl hstatus] at hreported
      have hzero := hreported.1
      dsimp only at hzero
      rw [List.append_nil, hsuccesses] at hzero
      cases hzero
    · obtain ⟨j₂, o, w₂, t₂, hrun, -⟩ := hdone horderly
      exact hno j₂ o w₂ t₂ hrun
  rcases hrun : (j₁.call f).run w₁ with ⟨x | ⟨j₂, x | o⟩, w₂, t₂⟩
  · rw [hrun] at hcall
    refine hraised hcall fun _ _ _ _ heq => ?_
    rw [hrun] at heq
    cases heq
  · rw [hrun] at hcall
    refine hraised hcall fun _ _ _ _ heq => ?_
    rw [hrun] at heq
    cases heq
  · rw [hrun] at hcall
    obtain ⟨rfl, rfl, rfl, hfailures⟩ := hcall
    rw [hrun] at hdone
    rw [h.whole]
    by_cases hkeeps : j'.serializable = true ∧ (j'.successTtl = 0 ∨ rv.encodes = true)
    · obtain ⟨j'', w'', hclose, hstatus, hrecord, hfree⟩ :=
        @run_close_ok env q j' rv hkeeps.1 hkeeps.2 w' path'
      rw [h.running.name] at hrecord hfree
      rw [hclose, List.append_nil]
      constructor
      · rintro ⟨-, hagrees⟩
        have hfinished := hagrees.2 hsuccesses
        exact .success j₁ j' rv f o w₁ w' t₁ t₂ hproduced hcb hrun hkeeps.1 hkeeps.2
          fun h => hfinished.registry (hfree.2 h)
      · intro horderly
        obtain ⟨_, _, _, _, heq, -, -, hnot⟩ := hdone horderly
        cases heq
        refine ⟨by rw [hsuccesses, hfailures], fun _ => hsuccesses, fun _ => ?_⟩
        exact ⟨⟨j'', rfl, hstatus⟩, hrecord, fun h => hnot (hfree.1 h)⟩
    · obtain ⟨j'', w'', hclose, hstatus⟩ := @run_close_fault env q j' rv hkeeps w' path'
      rw [hclose, reported_iff_of_failed rfl hstatus]
      dsimp only
      rw [List.append_nil, hsuccesses]
      refine iff_of_false (fun h => by cases h.1) fun horderly => ?_
      obtain ⟨_, _, _, _, heq, hmeta, hresult, -⟩ := hdone horderly
      cases heq
      exact hkeeps ⟨hmeta, hresult⟩

end Ran

/-- Exactly when an execution is reported rightly. -/
theorem reported_iff_orderly (env : Env) (q : Queue) (job : JobModel) (path : Path) (w : World) :
    Reported q job.name ((execution (muted env) q job path).run w) ↔
      job.serializable = true ∧ Orderly (muted env) q job path w := by
  cases hs : job.serializable with
  | false =>
      have htrace : ((execution (muted env) q job path).run w).trace = [] :=
        trace_execution_of_unserializable hs
      refine iff_of_false (fun hreported => ?_) fun h => by cases h.1
      have hone := hreported.one
      rw [htrace] at hone
      cases hone
  | true =>
      rw [and_iff_right rfl]
      obtain ⟨j₁, r₁, w₁, j', r', w', t, path', hran⟩ :=
        @exists_ran (muted env) q job path w (userCode_muted env) hs
      have hends := hran.ends
      unfold EndsAs at hends
      cases r₁ with
      | error x => exact hran.reported_iff_of_raised hends (.inl rfl)
      | ok rv =>
          dsimp only at hends
          cases hcb : onSuccess (muted env) j₁ with
          | none => exact hran.reported_iff_of_none hcb
          | some o =>
              cases o with
              | error x =>
                  rw [hcb] at hends
                  exact hran.reported_iff_of_raised hends (.inr ⟨⟨rv, rfl⟩, hcb⟩)
              | ok f => exact hran.reported_iff_of_invoked hcb

end Executions

end DailyScheduler.Callbacks
