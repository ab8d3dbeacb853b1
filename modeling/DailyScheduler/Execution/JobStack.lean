import DailyScheduler.Lib.Local
import DailyScheduler.Model.Effects

set_option autoImplicit false

/-! # The job stack

`queue_perform_job` keeps the jobs that are being executed in the thread on `_job_stack`, and
`get_current_job` answers the last one. A callable or a callback may enqueue a job on a queue without
workers, which is then executed at once, inside the call.

The functions are written here a second time, for a thread: with the stack as its own state, and with
user code that can ask for the current job and enqueue jobs. For user code that does not know the stack
they are those of `Model/Queue` (`erases_queuePerformJob`, `erases_runSync`, `erases_enqueueJob`).
-/

namespace DailyScheduler

open AtomicProg

namespace JobStack

/-- The identity of a `JobModel` object. -/
abbrev Ref := Nat

/-- What a thread notes: the answer of `get_current_job` inside the code of the job `self`, the stack
before and after a call of `queue_perform_job`, and the object that was found when the stack was
popped. -/
inductive Note where
  | current (self : Ref) (answer : Option Ref)
  | performed (before after : List Ref)
  | popped (expected : Ref) (found : Option Ref)

/-- A program of a thread. Its own state is `_job_stack`, the last job first. -/
abbrev StackPy (α : Type) := Prog (Local World (List Ref)) (Event ⊕ Note) PyError α

/-- A function that does not know the stack. -/
def lifted {α : Type} (p : Py α) : StackPy α := p.lift (List Ref) Note

/-- `_job_stack.append(job_model)`. -/
def append (ref : Ref) : StackPy Unit :=
  .act (fun t => ⟨t.shared, ref :: t.own⟩) (fun _ => []) fun _ => .ret ()

/-- `assert job_model is _job_stack.pop()`. -/
def assertPop (ref : Ref) : StackPy Unit :=
  .act (fun t => ⟨t.shared, t.own.tail⟩) (fun t => [.inr (.popped ref t.own.head?)]) fun t =>
    match t.own.head? with
    | none => .raise (.exception "IndexError")
    | some found => if found = ref then .ret () else .raise (.exception "AssertionError")

/-- `get_current_job`. -/
def getCurrentJob : StackPy (Option Ref) := Prog.read fun t => t.own.head?

/-- How a call of user code ends; a coroutine that it returned is still to be run. -/
structure CallEnd extends Returned where
  coroutine : Option (StackPy Returned)

/-- The user code of a job: what the names of its function and its callbacks stand for. -/
structure UserCode where
  func : Except PyError (StackPy CallEnd)
  onSuccess : Option (Except PyError (StackPy CallEnd))
  onFailure : Option (Except PyError (StackPy CallEnd))

/-- One method after the other, on the same object. -/
def next {α β : Type} (p : StackPy (After α)) (f : JobModel → α → StackPy (After β)) :
    StackPy (After β) := do
  let r ← p
  match r.2 with
  | .ok a => f r.1 a
  | .error x => pure (r.1, .error x)

/-- Use a method where nobody looks at the object once it raised. -/
def get {α : Type} (p : StackPy (After α)) : StackPy (JobModel × α) := do
  let r ← p
  match r.2 with
  | .ok a => pure (r.1, a)
  | .error x => throw x

/-- Call user code with the job; its `meta` is then as the code left it. -/
def call (j : JobModel) (f : StackPy CallEnd) : StackPy (After CallEnd) := do
  let r ← f.attempt
  match r with
  | .error x => pure (j, .error x)
  | .ok o =>
      let j := { j with metadata := o.metadata }
      match o.val with
      | .error x => pure (j, .error x)
      | .ok _ => pure (j, .ok o)

/-- `job.func(*args, **kwargs)`. -/
def callFunc (code : UserCode) (job : JobModel) : StackPy (After CallEnd) :=
  match code.func with
  | .error x => pure (job, .error x)
  | .ok f => do
      Prog.emit (.inl (.called job.name))
      call job f

/-- The value of a call: a coroutine is run to its end. -/
def runCoroutine (job : JobModel) (o : CallEnd) : StackPy (After PyValue) :=
  match o.coroutine with
  | none => pure (job, o.val)
  | some p => do
      let r ← p.attempt
      match r with
      | .error x => pure (job, .error x)
      | .ok r => pure ({ job with metadata := r.metadata }, r.val)

/-- `call_success_callback` and `call_failure_callback`. -/
def callCallback (job : JobModel) (callback : Option (Except PyError (StackPy CallEnd)))
    (e : Event) : StackPy (After Unit) :=
  match callback with
  | none => pure (job, .ok ())
  | some (.error x) => pure (job, .error x)
  | some (.ok f) => do
      Prog.emit (.inl e)
      next (call job f) fun job _ => pure (job, .ok ())

/-- The `try` block of `queue_perform_job`. -/
def performBody (code : UserCode) (job : JobModel) : StackPy (After PyValue) :=
  next (callFunc code job) fun job o =>
  next (lifted (job.save true)) fun job _ =>
  next (runCoroutine job o) fun job result =>
  next (callCallback job code.onSuccess (.successCallback job.name)) fun job _ =>
  pure (job, .ok result)

/-- The `except` clause of `queue_perform_job`. -/
def exceptClause (code : UserCode) (r : After PyValue) : StackPy (After PyValue) :=
  match r.2 with
  | .ok v => pure (r.1, .ok v)
  | .error x =>
      if x.isException then
        next (callCallback r.1 code.onFailure (.failureCallback r.1.name)) fun job _ =>
          pure (job, .error x)
      else pure (r.1, .error x)

/-- What a program returned or raised, once more. -/
def reraise {α : Type} : Except PyError α → StackPy α
  | .ok a => pure a
  | .error x => throw x

/-- `queue_perform_job`: `finally` pops the stack, whatever has happened. -/
def queuePerformJob (ref : Ref) (code : UserCode) (job : JobModel) : StackPy (After PyValue) := do
  lifted job.persist
  append ref
  let r ← (performBody code job >>= exceptClause code).attempt
  assertPop ref
  reraise r

/-- A call of `queue_perform_job`, with the stack before and after it noted. -/
def noted (ref : Ref) (code : UserCode) (job : JobModel) : StackPy (After PyValue) := do
  let before ← Prog.read fun t => t.own
  let r ← (queuePerformJob ref code job).attempt
  let after ← Prog.read fun t => t.own
  Prog.emit (.inr (.performed before after))
  reraise r

/-- `run_sync`. -/
def runSync (env : Env) (q : Queue) (ref : Ref) (code : UserCode) (job : JobModel) :
    StackPy (After Unit) :=
  next (lifted (job.prepareForExecution "sync" q.activeJobRegistry)) fun job _ => do
  let r ← next (noted ref code job) fun job result =>
    lifted (q.jobHandleSuccess job result job.jobInfoTtl job.successTtl)
  match r.2 with
  | .ok _ => pure r
  | .error x =>
      if x.isException then lifted (q.jobHandleFailure env .failed r.1 "traceback")
      else pure r

/-- `enqueue_job`. -/
def enqueueJob (env : Env) (q : Queue) (ref : Ref) (code : UserCode) (job : JobModel)
    (atFront : Bool) : StackPy JobModel := do
  let now ← lifted utcnow
  let (job, _) ← get (lifted ((Queue.enqueuedModel job now).save false))
  if q.isAsync then do
    let score ← lifted (q.enqueueScore atFront)
    lifted (q.push job.name score)
    pure job
  else do
    let (job, _) ← get (runSync env q ref code job)
    lifted (job.expire job.jobInfoTtl)

/-! ## User code that does not know the stack -/

/-- What a call returned, for a thread. -/
def threadEnd (o : CallOutcome) : CallEnd := ⟨o.toReturned, o.coroutine.map lifted⟩

/-- A function that does not know the stack, called for the job `j`. -/
def plain (j : JobModel) (f : JobModel → Py CallOutcome) : StackPy CallEnd :=
  lifted (f j) >>= fun o => pure (threadEnd o)

/-- What the names of a job stand for. -/
def plainCode (env : Env) (j : JobModel) : UserCode where
  func := (env.callableFunc j.funcName).map (plain j)
  onSuccess := j.successCallbackName.map fun name =>
    (Callback.resolve env name j.successCallbackTimeout).map (plain j)
  onFailure := j.failureCallbackName.map fun name =>
    (Callback.resolve env name j.failureCallbackTimeout).map (plain j)

/-- The object still has the name of the job `j₀` and those of its functions. -/
structure SameNames (j₀ j : JobModel) : Prop where
  name : j.name = j₀.name
  funcName : j.funcName = j₀.funcName
  successCallbackName : j.successCallbackName = j₀.successCallbackName
  successCallbackTimeout : j.successCallbackTimeout = j₀.successCallbackTimeout
  failureCallbackName : j.failureCallbackName = j₀.failureCallbackName
  failureCallbackTimeout : j.failureCallbackTimeout = j₀.failureCallbackTimeout

/-- The functions are called with the arguments of the job, and do not look at what else the object
holds. -/
def Incurious (env : Env) (j₀ : JobModel) : Prop :=
  ∀ name f, env.callableFunc name = .ok f → ∀ j, SameNames j₀ j → f j = f j₀

section Plain

variable {env : Env} {j₀ j : JobModel} {st : List Ref} {α β : Type}

theorem SameNames.trans {j' : JobModel} (h : SameNames j₀ j) (h' : SameNames j j') : SameNames j₀ j' where
  name := h'.name.trans h.name
  funcName := h'.funcName.trans h.funcName
  successCallbackName := h'.successCallbackName.trans h.successCallbackName
  successCallbackTimeout := h'.successCallbackTimeout.trans h.successCallbackTimeout
  failureCallbackName := h'.failureCallbackName.trans h.failureCallbackName
  failureCallbackTimeout := h'.failureCallbackTimeout.trans h.failureCallbackTimeout

theorem sameNames_saved (j : JobModel) : SameNames j j.saved := ⟨rfl, rfl, rfl, rfl, rfl, rfl⟩

theorem sameNames_metadata (j : JobModel) (m : PyValue) : SameNames j { j with metadata := m } :=
  ⟨rfl, rfl, rfl, rfl, rfl, rfl⟩

/-- A method for a thread, and the same on the shared state. -/
abbrev ErasesTo (st : List Ref) (p : StackPy (After α)) (q : Py (After β)) (f : β → α)
    (Q : After β → Prop) : Prop :=
  Prog.Erases st p q (Prod.map id (Except.map f)) Q

/-- The object that it leaves has the names of `j₀`. -/
abbrev Named (j₀ : JobModel) (r : After α) : Prop := SameNames j₀ r.1

theorem erases_value (f : β → α) {Q : After β → Prop} (b : β) (h : Q (j, .ok b)) :
    ErasesTo st (pure (j, .ok (f b))) (pure (j, .ok b)) f Q :=
  ⟨fun _ => rfl, fun _ => rfl, fun _ => rfl, fun _ _ hb => by cases hb; exact h⟩

theorem erases_error (f : β → α) {Q : After β → Prop} (x : PyError) (h : Q (j, .error x)) :
    ErasesTo st (pure (j, .error x)) (pure (j, .error x)) f Q :=
  ⟨fun _ => rfl, fun _ => rfl, fun _ => rfl, fun _ _ hb => by cases hb; exact h⟩

theorem erases_lifted {q : Py (After α)} {Q : After α → Prop}
    (h : ∀ w r, (q.run w).val = .ok r → Q r) : ErasesTo st (lifted q) q id Q := by
  refine Prog.Erases.lift (fun r => ?_) h
  obtain ⟨j, x | a⟩ := r <;> rfl

theorem erases_next {α' β' : Type} {p : StackPy (After α)} {q : Py (After β)} {f : β → α}
    {k : JobModel → α → StackPy (After α')} {k' : JobModel → β → Py (After β')} {g : β' → α'}
    {Q : After β' → Prop} (hp : ErasesTo st p q f (Named j₀))
    (herror : ∀ j x, SameNames j₀ j → Q (j, .error x))
    (hk : ∀ j b, SameNames j₀ j → ErasesTo st (k j (f b)) (k' j b) g Q) :
    ErasesTo st (next p k) (After.next q k') g Q := by
  refine hp.bind fun r hr => ?_
  obtain ⟨j, x | b⟩ := r
  · exact erases_error g x (herror j x hr)
  · exact hk j b hr

theorem erases_get {p : StackPy (After α)} {q : Py (After β)} {f : β → α} {Q : After β → Prop}
    (hp : ErasesTo st p q f Q) :
    Prog.Erases st (get p) (After.get q) (Prod.map id f) fun r => Q (r.1, .ok r.2) := by
  refine hp.bind fun r hr => ?_
  obtain ⟨j, x | b⟩ := r
  · exact Prog.Erases.raise x
  · exact ⟨fun _ => rfl, fun _ => rfl, fun _ => rfl, fun _ _ hb => by cases hb; exact hr⟩

theorem erases_save (hj : SameNames j₀ j) (saveAll : Bool) :
    ErasesTo st (lifted (j.save saveAll)) (j.save saveAll) id (Named j₀) := by
  refine erases_lifted fun w r hr => ?_
  unfold JobModel.save at hr
  split at hr
  · cases hr
    exact hj.trans (sameNames_saved j)
  · cases hr
    exact hj

theorem erases_call {f : JobModel → Py CallOutcome} (hj : SameNames j₀ j) (hf : f j = f j₀) :
    ErasesTo st (call j (plain j₀ f)) (j.call f) threadEnd (Named j₀) := by
  have hplain : Prog.Erases st (plain j₀ f) (f j₀) threadEnd fun _ => True :=
    (Prog.Erases.lift (fun _ => rfl) fun _ _ _ => trivial).map
  unfold JobModel.call
  rw [hf]
  refine hplain.attempt.bind fun r _ => ?_
  cases r with
  | error x => exact erases_error threadEnd x hj
  | ok o =>
      have hm := hj.trans (sameNames_metadata j o.metadata)
      show ErasesTo st (match o.val with
        | .error x => pure ({ j with metadata := o.metadata }, .error x)
        | .ok _ => pure ({ j with metadata := o.metadata }, .ok (threadEnd o))) (match o.val with
        | .error x => pure ({ j with metadata := o.metadata }, .error x)
        | .ok _ => pure ({ j with metadata := o.metadata }, .ok o)) threadEnd (Named j₀)
      cases o.val with
      | error x => exact erases_error threadEnd x hm
      | ok v => exact erases_value threadEnd o hm

theorem erases_callFunc (henv : Incurious env j₀) (hj : SameNames j₀ j) :
    ErasesTo st (callFunc (plainCode env j₀) j) (DailyScheduler.callFunc env j) threadEnd (Named j₀) := by
  unfold callFunc DailyScheduler.callFunc plainCode
  rw [hj.funcName]
  dsimp only
  cases hf : env.callableFunc j₀.funcName with
  | error x => exact erases_error threadEnd x hj
  | ok f => exact (Prog.Erases.emit _).bind fun _ _ => erases_call hj (henv _ f hf j hj)

theorem erases_runCoroutine (hj : SameNames j₀ j) (o : CallOutcome) :
    ErasesTo st (runCoroutine j (threadEnd o)) (DailyScheduler.runCoroutine j o) id (Named j₀) := by
  unfold runCoroutine DailyScheduler.runCoroutine threadEnd
  dsimp only
  cases o.coroutine with
  | none =>
      dsimp only [Option.map_none]
      cases o.val with
      | error x => exact erases_error id x hj
      | ok v => exact erases_value id v hj
  | some p =>
      have hlift : Prog.Erases st (lifted p) p id fun _ => True :=
        Prog.Erases.lift (fun _ => rfl) fun _ _ _ => trivial
      refine hlift.attempt.bind fun r _ => ?_
      cases r with
      | error x => exact erases_error id x hj
      | ok r =>
          have hm := hj.trans (sameNames_metadata j r.metadata)
          obtain ⟨x | v, m⟩ := r
          · exact erases_error id x hm
          · exact erases_value id v hm

theorem erases_callCallback (henv : Incurious env j₀) (hj : SameNames j₀ j) (name : Option String)
    (timeout : Option Int) (e : Event) :
    ErasesTo st (callCallback j (name.map fun name => (Callback.resolve env name timeout).map (plain j₀)) e)
      (j.callCallback env name timeout e) id (Named j₀) := by
  unfold callCallback JobModel.callCallback
  cases name with
  | none => exact erases_value id () hj
  | some name =>
      dsimp only [Option.map_some]
      cases hf : Callback.resolve env name timeout with
      | error x => exact erases_error id x hj
      | ok f =>
          refine (Prog.Erases.emit e).bind fun _ _ => ?_
          have hcall : ErasesTo st (call j (plain j₀ f)) (j.call f) threadEnd (Named j₀) :=
            erases_call hj (henv _ f (Callback.callableFunc_of_resolve hf) j hj)
          exact erases_next hcall (fun _ _ => id) fun j _ hj => erases_value id () hj

theorem erases_performBody (henv : Incurious env j₀) (hj : SameNames j₀ j) :
    ErasesTo st (performBody (plainCode env j₀) j) (DailyScheduler.performBody env j) id (Named j₀) := by
  refine erases_next (erases_callFunc henv hj) (fun _ _ => id) fun j o hj => ?_
  refine erases_next (erases_save hj true) (fun _ _ => id) fun j _ hj => ?_
  refine erases_next (erases_runCoroutine hj o) (fun _ _ => id) fun j result hj => ?_
  have hcallback : ErasesTo st (callCallback j (plainCode env j₀).onSuccess (.successCallback j.name))
      (j.callSuccessCallback env) id (Named j₀) := by
    unfold JobModel.callSuccessCallback
    rw [hj.successCallbackName, hj.successCallbackTimeout]
    exact erases_callCallback henv hj ..
  exact erases_next hcallback (fun _ _ => id) fun j _ hj => erases_value id result hj

theorem erases_exceptClause (henv : Incurious env j₀) {r : After PyValue} (hr : Named j₀ r) :
    ErasesTo st (exceptClause (plainCode env j₀) (Prod.map id (Except.map id) r))
      (DailyScheduler.exceptClause env r) id (Named j₀) := by
  obtain ⟨j, x | v⟩ := r
  · show ErasesTo st (if x.isException then next (callCallback j (plainCode env j₀).onFailure
        (.failureCallback j.name)) fun job _ => pure (job, .error x) else pure (j, .error x))
      (if x.isException then After.next (j.callFailureCallback env) fun job _ => pure (job, .error x)
        else pure (j, .error x)) id (Named j₀)
    split
    · have hcallback : ErasesTo st (callCallback j (plainCode env j₀).onFailure (.failureCallback j.name))
          (j.callFailureCallback env) id (Named j₀) := by
        unfold JobModel.callFailureCallback
        rw [hr.failureCallbackName, hr.failureCallbackTimeout]
        exact erases_callCallback henv hr ..
      exact erases_next hcallback (fun _ _ => id) fun j _ hj => erases_error id x hj
    · exact erases_error id x hr
  · exact erases_value id v hr

theorem run_reraise {α : Type} (r : Except PyError α) (t : Local World (List Ref)) :
    (reraise r).run t = ⟨r, t, []⟩ := by
  cases r <;> rfl

/-- `queue_perform_job` of a thread is that of `Model/Queue`. -/
theorem erases_queuePerformJob (henv : Incurious env j₀) (hj : SameNames j₀ j) (ref : Ref) :
    ErasesTo st (queuePerformJob ref (plainCode env j₀) j) (DailyScheduler.queuePerformJob env j) id
      (Named j₀) := by
  have hpersist : Prog.Erases st (lifted j.persist) j.persist id fun _ => True :=
    Prog.Erases.lift (fun _ => rfl) fun _ _ _ => trivial
  have hbody : ErasesTo (ref :: st) (performBody (plainCode env j₀) j >>= exceptClause (plainCode env j₀))
      (DailyScheduler.performBody env j >>= DailyScheduler.exceptClause env) id (Named j₀) :=
    (erases_performBody henv hj).bind fun r hr => erases_exceptClause henv hr
  have hpop : ∀ w, (assertPop ref).run ⟨w, ref :: st⟩
      = ⟨.ok (), ⟨w, st⟩, [Note.popped ref (some ref)].map .inr⟩ := by
    intro w
    simp [assertPop, Prog.run]
  refine hpersist.bind fun _ _ => ?_
  -- `Model/Queue` has neither the append nor the pop: they touch the stack of the thread only
  exact Prog.Erases.bracket (fun w => rfl) hbody hpop fun r w => ⟨[], run_reraise r _⟩

theorem erases_noted (henv : Incurious env j₀) (hj : SameNames j₀ j) (ref : Ref) :
    ErasesTo st (noted ref (plainCode env j₀) j) (DailyScheduler.queuePerformJob env j) id (Named j₀) := by
  refine Prog.Erases.readOwn (g := fun l => l) ?_
  refine @Prog.Erases.bracket _ _ _ _ _ _ _ _ _ _ _ _ st (pure ()) (pure ()) _ [] (fun w => rfl)
    (erases_queuePerformJob henv hj ref) (fun w => rfl) fun r w => ⟨[.performed st st], ?_⟩
  cases r <;> rfl

theorem erases_prepareForExecution (hj : SameNames j₀ j) (name : WorkerName) (r : Registry) :
    ErasesTo st (lifted (j.prepareForExecution name r)) (j.prepareForExecution name r) id
      (Named j₀) := by
  refine erases_lifted fun w r hr => ?_
  rw [JobModel.run_prepareForExecution] at hr
  have hprepared : SameNames j₀ (j.prepared name w.now) := hj.trans ⟨rfl, rfl, rfl, rfl, rfl, rfl⟩
  have hsave : ErasesTo [] _ _ id (Named j₀) := erases_save hprepared false
  exact hsave.returns _ r hr

/-- `run_sync` of a thread is that of `Model/Queue`. -/
theorem erases_runSync (q : Queue) (henv : Incurious env j₀) (hj : SameNames j₀ j) (ref : Ref) :
    ErasesTo st (runSync env q ref (plainCode env j₀) j) (q.runSync env j) id fun _ => True := by
  refine erases_next (erases_prepareForExecution hj _ _) (fun _ _ _ => trivial) fun j _ hj => ?_
  have hperform : ErasesTo st (next (noted ref (plainCode env j₀) j) fun job result =>
      lifted (q.jobHandleSuccess job result job.jobInfoTtl job.successTtl))
      (After.next (DailyScheduler.queuePerformJob env j) fun job result =>
        q.jobHandleSuccess job result job.jobInfoTtl job.successTtl) id fun _ => True :=
    erases_next (erases_noted henv hj ref) (fun _ _ _ => trivial) fun j result _ =>
      erases_lifted fun _ _ _ => trivial
  refine hperform.bind fun r _ => ?_
  obtain ⟨j, x | u⟩ := r
  · show ErasesTo st (if x.isException then lifted (q.jobHandleFailure env .failed j "traceback")
        else pure (j, .error x)) (if x.isException then q.jobHandleFailure env .failed j "traceback"
        else pure (j, .error x)) id fun _ => True
    split
    · exact erases_lifted fun _ _ _ => trivial
    · exact erases_error id x trivial
  · exact erases_value id u trivial

/-- `enqueue_job` of a thread is that of `Model/Queue`. -/
theorem erases_enqueueJob (q : Queue) (henv : Incurious env j) (ref : Ref) (atFront : Bool) :
    Prog.Erases st (enqueueJob env q ref (plainCode env j) j atFront) (q.enqueueJob env j atFront) id
      fun _ => True := by
  have hlift : ∀ {α : Type} (p : Py α), Prog.Erases st (lifted p) p id fun _ => True :=
    fun p => Prog.Erases.lift (fun _ => rfl) fun _ _ _ => trivial
  refine (hlift utcnow).bind fun now _ => ?_
  have hqueued : SameNames j (Queue.enqueuedModel j now) := ⟨rfl, rfl, rfl, rfl, rfl, rfl⟩
  refine (erases_get (erases_save hqueued false)).bind fun p hp => ?_
  obtain ⟨j', u⟩ := p
  show Prog.Erases st (if q.isAsync then _ else _) (if q.isAsync then _ else _) id _
  split
  · exact (hlift _).bind fun score _ => (hlift _).bind fun _ _ => Prog.Erases.ret trivial
  · refine (erases_get (erases_runSync q henv hp ref)).bind fun p _ => ?_
    exact hlift _

end Plain

/-! ## Trees of nested executions -/

/-- Whether the names of a job stand for code: the exception that resolving one raises. A job may
have no callbacks. -/
structure Names where
  func : Option PyError
  onSuccess : Option (Option PyError)
  onFailure : Option (Option PyError)

/-- What a name stands for. -/
def resolved (error : Option PyError) (f : StackPy CallEnd) : Except PyError (StackPy CallEnd) :=
  match error with
  | none => .ok f
  | some x => .error x

def Names.code (names : Names) (func onSuccess onFailure : StackPy CallEnd) : UserCode where
  func := resolved names.func func
  onSuccess := names.onSuccess.map fun error => resolved error onSuccess
  onFailure := names.onFailure.map fun error => resolved error onFailure

/-- User code: it ends, with or without a coroutine, asks for the current job, sends a command to the
broker, or enqueues a job. How it goes on may depend on what it finds. A nested job comes with its own
code. -/
inductive Script where
  | finish (r : Returned)
  | coroutine (r : Returned) (rest : Script)
  | current (k : Option Ref → Script)
  | command (f : World → World) (e : World → List Event) (k : World → Script)
  | enqueue (q : Queue) (ref : Ref) (job : JobModel) (atFront : Bool) (names : Names)
      (func onSuccess onFailure : Script) (k : Except PyError JobModel → Script)

/-- The program of some code of the job `self`. -/
def Script.program (env : Env) (self : Ref) : Script → StackPy CallEnd
  | .finish r => pure ⟨r, none⟩
  | .coroutine r rest =>
      let p := rest.program env self
      pure ⟨r, some (p >>= fun o => pure o.toReturned)⟩
  | .current k => do
      let answer ← getCurrentJob
      Prog.emit (.inr (.current self answer))
      (k answer).program env self
  | .command f e k => do
      let w ← Prog.command (fun t => (t.shared, ⟨f t.shared, t.own⟩)) fun t => (e t.shared).map .inl
      (k w).program env self
  | .enqueue q ref job atFront names func onSuccess onFailure k => do
      let code := names.code (func.program env ref) (onSuccess.program env ref)
        (onFailure.program env ref)
      let r ← (enqueueJob env q ref code job atFront).attempt
      (k r).program env self

/-- A synchronous execution of a job, with all that is nested in it. -/
structure Execution where
  ref : Ref
  job : JobModel
  names : Names
  func : Script
  onSuccess : Script
  onFailure : Script

def Execution.code (x : Execution) (env : Env) : UserCode :=
  x.names.code (x.func.program env x.ref) (x.onSuccess.program env x.ref)
    (x.onFailure.program env x.ref)

/-- Inside its code a job is the current one; a call leaves the stack as it was; what is popped is
what has been appended. -/
def Note.Good : Note → Prop
  | .current self answer => answer = some self
  | .performed before after => after = before
  | .popped expected found => found = some expected

section Kept

variable {st : List Ref}

/-! ## What keeps the stack -/

/-- The program hands the stack back as it was, and makes only good notes. -/
abbrev KeepsStack {α : Type} (st : List Ref) (p : StackPy α) (Q : α → Prop) : Prop :=
  Prog.Keeps Note.Good st p Q

/-- A coroutine that is left keeps the stack, too. -/
def CallEnd.Kept (st : List Ref) (o : CallEnd) : Prop :=
  ∀ p, o.coroutine = some p → KeepsStack st p fun _ => True

/-- The call of some user code keeps the stack. -/
def KeptCode (st : List Ref) (f : StackPy CallEnd) : Prop := KeepsStack st f (CallEnd.Kept st)

/-- All code of a job keeps the stack. -/
structure UserCode.Kept (st : List Ref) (code : UserCode) : Prop where
  func : ∀ f, code.func = .ok f → KeptCode st f
  onSuccess : ∀ f, code.onSuccess = some (.ok f) → KeptCode st f
  onFailure : ∀ f, code.onFailure = some (.ok f) → KeptCode st f

theorem keeps_lifted {α : Type} (p : Py α) : KeepsStack st (lifted p) fun _ => True :=
  Prog.Keeps.lift p

theorem keeps_event (e : Event) :
    KeepsStack st (Prog.emit (.inl e) : StackPy Unit) fun _ => True where
  own _ := rfl
  notes _ _ hn := by
    rcases List.mem_singleton.1 hn with hn
    cases hn
  val _ _ _ := trivial

theorem keeps_reraise {α : Type} (r : Except PyError α) :
    KeepsStack st (reraise r) fun _ => True := by
  cases r with
  | ok a => exact .ret trivial
  | error x => exact .raise x

theorem keeps_next {α β : Type} {p : StackPy (After α)} {f : JobModel → α → StackPy (After β)}
    {Q : After α → Prop} (hp : KeepsStack st p Q)
    (hf : ∀ j a, Q (j, .ok a) → KeepsStack st (f j a) fun _ => True) :
    KeepsStack st (next p f) fun _ => True := by
  refine hp.bind fun r hr => ?_
  obtain ⟨j, a | a⟩ := r
  · exact .ret trivial
  · exact hf j _ hr

theorem keeps_get {α : Type} {p : StackPy (After α)} (hp : KeepsStack st p fun _ => True) :
    KeepsStack st (get p) fun _ => True := by
  refine hp.bind fun r _ => ?_
  obtain ⟨j, a | a⟩ := r
  · exact .raise _
  · exact .ret trivial

/-- What a call returned is kept as the code has promised. -/
theorem keeps_call {f : StackPy CallEnd} (hf : KeptCode st f) (j : JobModel) :
    KeepsStack st (call j f) fun r => ∀ o, r.2 = .ok o → o.Kept st := by
  refine hf.attempt.bind fun r hr => ?_
  cases r with
  | error x =>
      refine .ret fun o ho => ?_
      cases ho
  | ok o =>
      dsimp only
      cases o.val with
      | error x =>
          refine .ret fun o ho => ?_
          cases ho
      | ok v =>
          refine .ret fun o' ho' => ?_
          cases ho'
          exact hr o rfl

theorem keeps_callFunc {code : UserCode} (hcode : code.Kept st) (job : JobModel) :
    KeepsStack st (callFunc code job) fun r => ∀ o, r.2 = .ok o → o.Kept st := by
  unfold callFunc
  cases hfunc : code.func with
  | error x =>
      refine .ret fun o ho => ?_
      cases ho
  | ok f => exact (keeps_event _).bind fun _ _ => keeps_call (hcode.func f hfunc) job

theorem keeps_runCoroutine {o : CallEnd} (ho : o.Kept st) (job : JobModel) :
    KeepsStack st (runCoroutine job o) fun _ => True := by
  unfold runCoroutine
  cases hc : o.coroutine with
  | none => exact .ret trivial
  | some p =>
      refine (ho p hc).attempt.bind fun r _ => ?_
      cases r with
      | error x => exact .ret trivial
      | ok r => exact .ret trivial

theorem keeps_callCallback {callback : Option (Except PyError (StackPy CallEnd))}
    (h : ∀ f, callback = some (.ok f) → KeptCode st f) (job : JobModel) (e : Event) :
    KeepsStack st (callCallback job callback e) fun _ => True := by
  unfold callCallback
  rcases callback with _ | x | f
  · exact .ret trivial
  · exact .ret trivial
  · refine (keeps_event e).bind fun _ _ => ?_
    exact keeps_next (keeps_call (h f rfl) job) fun _ _ _ => .ret trivial

theorem keeps_performBody {code : UserCode} (hcode : code.Kept st) (job : JobModel) :
    KeepsStack st (performBody code job) fun _ => True := by
  refine keeps_next (keeps_callFunc hcode job) fun job o ho => ?_
  refine keeps_next (keeps_lifted _) fun job _ _ => ?_
  refine keeps_next (keeps_runCoroutine (ho o rfl) job) fun job result _ => ?_
  exact keeps_next (keeps_callCallback hcode.onSuccess job _) fun _ _ _ => .ret trivial

theorem keeps_exceptClause {code : UserCode} (hcode : code.Kept st) (r : After PyValue) :
    KeepsStack st (exceptClause code r) fun _ => True := by
  obtain ⟨j, x | v⟩ := r
  · unfold exceptClause
    dsimp only
    split
    · exact keeps_next (keeps_callCallback hcode.onFailure j _) fun _ _ _ => .ret trivial
    · exact .ret trivial
  · exact .ret trivial

/-- Whatever the code of the job does with the stack under the job, `queue_perform_job` pops the job
itself. -/
theorem keeps_queuePerformJob {ref : Ref} {code : UserCode} (hcode : code.Kept (ref :: st))
    (job : JobModel) : KeepsStack st (queuePerformJob ref code job) fun _ => True := by
  have hbody : KeepsStack (ref :: st) (performBody code job >>= exceptClause code) fun _ => True :=
    (keeps_performBody hcode job).bind fun r _ => keeps_exceptClause hcode r
  have happend : ∀ w, (append ref).run ⟨w, st⟩ = ⟨.ok (), ⟨w, ref :: st⟩, []⟩ := fun w => rfl
  have hpop : ∀ w, (assertPop ref).run ⟨w, ref :: st⟩
      = ⟨.ok (), ⟨w, st⟩, [Note.popped ref (some ref)].map .inr⟩ := by
    intro w
    simp [assertPop, Prog.run]
  have hgood : ∀ n ∈ [Note.popped ref (some ref)], n.Good := by
    intro n hn
    obtain rfl := List.mem_singleton.1 hn
    rfl
  refine (keeps_lifted _).bind fun _ _ => ?_
  exact Prog.Keeps.bracket happend hbody hpop hgood fun r _ => keeps_reraise r

theorem keeps_noted {ref : Ref} {code : UserCode} (hcode : code.Kept (ref :: st))
    (job : JobModel) : KeepsStack st (noted ref code job) fun _ => True := by
  refine (Prog.Keeps.readOwn fun t => t).bind fun before hbefore => ?_
  refine (keeps_queuePerformJob hcode job).attempt.bind fun r _ => ?_
  refine (Prog.Keeps.readOwn fun t => t).bind fun after hafter => ?_
  have hgood : Note.Good (.performed before after) := hafter.trans hbefore.symm
  exact (Prog.Keeps.note hgood).bind fun _ _ => keeps_reraise r

theorem keeps_runSync (env : Env) (q : Queue) {ref : Ref} {code : UserCode}
    (hcode : code.Kept (ref :: st)) (job : JobModel) :
    KeepsStack st (runSync env q ref code job) fun _ => True := by
  refine keeps_next (keeps_lifted _) fun job _ _ => ?_
  have hperform : KeepsStack st (next (noted ref code job) fun job result =>
      lifted (q.jobHandleSuccess job result job.jobInfoTtl job.successTtl)) fun _ => True :=
    keeps_next (keeps_noted hcode job) fun _ _ _ => keeps_lifted _
  refine hperform.bind fun r _ => ?_
  obtain ⟨j, x | u⟩ := r
  · dsimp only
    split
    · exact keeps_lifted _
    · exact .ret trivial
  · exact .ret trivial

theorem keeps_enqueueJob (env : Env) (q : Queue) {ref : Ref} {code : UserCode}
    (hcode : code.Kept (ref :: st)) (job : JobModel) (atFront : Bool) :
    KeepsStack st (enqueueJob env q ref code job atFront) fun _ => True := by
  refine (keeps_lifted _).bind fun now _ => ?_
  refine (keeps_get (keeps_lifted _)).bind fun p _ => ?_
  obtain ⟨job, -⟩ := p
  dsimp only
  split
  · refine (keeps_lifted _).bind fun score _ => ?_
    exact (keeps_lifted _).bind fun _ _ => .ret trivial
  · refine (keeps_get (keeps_runSync env q hcode job)).bind fun p _ => ?_
    exact keeps_lifted _

/-! ## Trees -/

theorem kept_resolved {error : Option PyError} {f f' : StackPy CallEnd} (hf : KeptCode st f)
    (h : resolved error f = .ok f') : KeptCode st f' := by
  cases error with
  | none =>
      cases h
      exact hf
  | some x => cases h

theorem kept_code (names : Names) {func onSuccess onFailure : StackPy CallEnd}
    (hfunc : KeptCode st func) (hsuccess : KeptCode st onSuccess)
    (hfailure : KeptCode st onFailure) : (names.code func onSuccess onFailure).Kept st := by
  refine ⟨fun f hf => kept_resolved hfunc hf, fun f hf => ?_, fun f hf => ?_⟩
  · obtain ⟨error, -, he⟩ := Option.map_eq_some_iff.1 hf
    exact kept_resolved hsuccess he
  · obtain ⟨error, -, he⟩ := Option.map_eq_some_iff.1 hf
    exact kept_resolved hfailure he

/-- The code of a job keeps the stack on which the job is the last one: an induction on the tree, for
all stacks below the job. -/
theorem kept_program (env : Env) (s : Script) (self : Ref) (st : List Ref) :
    KeptCode (self :: st) (s.program env self) := by
  induction s generalizing self st with
  | finish r =>
      refine .ret fun p hp => ?_
      cases hp
  | coroutine r rest ih =>
      refine .ret fun p hp => ?_
      cases hp
      exact (ih self st).bind fun o _ => .ret trivial
  | current k ih =>
      refine (Prog.Keeps.readOwn fun t : List Ref => t.head?).bind fun answer hanswer => ?_
      have hgood : Note.Good (.current self answer) := hanswer
      exact (Prog.Keeps.note hgood).bind fun _ _ => ih answer self st
  | command f e k ih =>
      have hcommand : KeepsStack (self :: st) (Prog.command
          (fun t => (t.shared, ⟨f t.shared, t.own⟩)) fun t => (e t.shared).map .inl : StackPy World)
          fun _ => True := by
        refine ⟨fun w => rfl, fun w n hn => ?_, fun _ _ _ => trivial⟩
        rw [Prog.run_command] at hn
        obtain ⟨e', -, he⟩ := List.mem_map.1 hn
        cases he
      exact hcommand.bind fun w _ => ih w self st
  | enqueue q ref job atFront names func onSuccess onFailure k ihfunc ihsuccess ihfailure ih =>
      have hcode := kept_code names (ihfunc ref (self :: st)) (ihsuccess ref (self :: st))
        (ihfailure ref (self :: st))
      refine (keeps_enqueueJob env q hcode job atFront).attempt.bind fun r _ => ?_
      exact ih r self st

end Kept

/-- **The job stack is in order.** However executions are nested and however their code ends, a call of
`queue_perform_job` leaves the stack as it was; in everything that happens meanwhile the current job is
the one whose code asks, every nested call leaves its stack as it was, and what is popped is the job
that has been appended. -/
theorem job_stack_in_order (env : Env) (x : Execution) (w : World) (stack : List Ref) :
    ((queuePerformJob x.ref (x.code env) x.job).run ⟨w, stack⟩).state.own = stack ∧
      ∀ n, .inr n ∈ ((queuePerformJob x.ref (x.code env) x.job).run ⟨w, stack⟩).trace → n.Good := by
  have hcode := kept_code x.names (kept_program env x.func x.ref stack)
    (kept_program env x.onSuccess x.ref stack) (kept_program env x.onFailure x.ref stack)
  have hkeeps := keeps_queuePerformJob hcode x.job
  exact ⟨hkeeps.own w, hkeeps.notes w⟩

end JobStack

end DailyScheduler
