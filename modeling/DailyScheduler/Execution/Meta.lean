import DailyScheduler.Execution.Steps

set_option autoImplicit false

/-! # What is stored of `meta`

User code changes `meta` of the running job in place, which marks no field as changed. So `meta` is
stored by the one save of all fields, and that comes when the call of the function has returned: before
the coroutine is run that an `async` function returns, and before the success callback. What is stored is
JSON, which reads tuples as lists and keys as strings (`PyValue.readBack`).
-/

namespace DailyScheduler.Meta

open AtomicProg

/-- `meta` in the record, as it is read. -/
def storedMeta (w : World) (n : JobName) : Option PyValue := (w.jobs.find? n).bind fun v => v .metadata

/-- `queue_perform_job`, and `job_handle_success` after it. -/
def execute (env : Env) (q : Queue) (job : JobModel) : Py (After Unit) :=
  After.next (queuePerformJob env job) fun job result =>
    q.jobHandleSuccess job result job.jobInfoTtl job.successTtl

/-- The step leaves `meta` in the record of the job alone. -/
def SparesMeta (n : JobName) (w w' : World) (_ : List Event) : Prop :=
  storedMeta w' n = storedMeta w n

/-- No attribute of the object has been assigned since it was saved. -/
structure Clean (n : JobName) (j : JobModel) : Prop where
  name : j.name = n
  dirtyFields : j.dirtyFields = ∅
  saveAll : j.saveAll = false

/-! ## Saves -/

section Saves

variable {w : World} {j : JobModel} {sa : Bool}

theorem storedMeta_saveJob (w : World) (j : JobModel) (sa : Bool) :
    storedMeta (w.saveJob j sa) j.name
      = if j.written sa .metadata then some j.metadata.readBack else storedMeta w j.name := by
  have hfield := World.storedField_saveJob w j sa j.name .metadata
  simp only [true_and] at hfield
  exact hfield

end Saves

/-! ## What a method that returned went through -/

section Returns

variable {env : Env} {w w' : World} {j : JobModel} {es : List Event}

theorem next_returns {α β : Type} {p : Py (After α)} {f : JobModel → α → Py (After β)} {b : β}
    (h : (After.next p f).run w = ⟨.ok (j, .ok b), w', es⟩) :
    ∃ j' a w₁ es₁ es₂, p.run w = ⟨.ok (j', .ok a), w₁, es₁⟩ ∧
      (f j' a).run w₁ = ⟨.ok (j, .ok b), w', es₂⟩ := by
  unfold After.next at h
  rw [Prog.run_bind] at h
  rcases hp : p.run w with ⟨_ | ⟨j', x | a⟩, w₁, es₁⟩
  · rw [hp] at h
    cases h
  · rw [hp] at h
    cases h
  · rw [hp, Prog.Outcome.andThen_ok] at h
    refine ⟨j', a, w₁, es₁, ((f j' a).run w₁).trace, rfl, ?_⟩
    have hrest : (f j' a).run w₁ = ⟨((f j' a).run w₁).val, ((f j' a).run w₁).state, _⟩ := rfl
    rw [hrest]
    obtain ⟨hval, hstate, -⟩ := Prog.Outcome.mk.inj h
    have hval' : ((f j' a).run w₁).val = .ok (j, .ok b) := hval
    have hstate' : ((f j' a).run w₁).state = w' := hstate
    rw [hval', hstate']

/-- The `except` clause ends in an exception, or there was none. -/
theorem exceptClause_returns {r : After PyValue} {v : PyValue}
    (h : (exceptClause env r).run w = ⟨.ok (j, .ok v), w', es⟩) : r = (j, .ok v) ∧ w' = w := by
  obtain ⟨j', x | v'⟩ := r
  · unfold exceptClause at h
    dsimp only at h
    split at h
    · obtain ⟨_, _, _, _, _, -, hrest⟩ := next_returns h
      cases hrest
    · cases h
  · cases h
    exact ⟨rfl, rfl⟩

/-- Where `queue_perform_job` returns, all its parts have. -/
theorem queuePerformJob_returns {job : JobModel} {v : PyValue}
    (h : (queuePerformJob env job).run w = ⟨.ok (j, .ok v), w', es⟩) :
    ∃ j₁ o w₁ es₁ j₂ w₂ es₂ es₃,
      (callFunc env job).run (w.persistJob job.name) = ⟨.ok (j₁, .ok o), w₁, es₁⟩ ∧
      (runCoroutine j₁.saved o).run (w₁.saveJob j₁ true) = ⟨.ok (j₂, .ok v), w₂, es₂⟩ ∧
      (j₂.callSuccessCallback env).run w₂ = ⟨.ok (j, .ok ()), w', es₃⟩ := by
  unfold queuePerformJob JobModel.persist at h
  rw [Prog.run_bind, Prog.run_write, Prog.Outcome.andThen_ok, Prog.run_bind] at h
  rcases hbody : (performBody env job).run (w.persistJob job.name) with ⟨_ | r, w₀, es₀⟩
  · rw [hbody] at h
    cases h
  · rw [hbody, Prog.Outcome.andThen_ok] at h
    obtain ⟨hval, hstate, -⟩ := Prog.Outcome.mk.inj h
    have hclause : (exceptClause env r).run w₀
        = ⟨.ok (j, .ok v), w', ((exceptClause env r).run w₀).trace⟩ := by
      rw [← hval, ← hstate]
    obtain ⟨rfl, rfl⟩ := exceptClause_returns hclause
    obtain ⟨j₁, o, w₁, es₁, _, hcall, hafter⟩ := next_returns hbody
    obtain ⟨j₁', _, w₁', _, _, hsave, hafter⟩ := next_returns hafter
    obtain ⟨j₂, v', w₂, es₂, _, hcoroutine, hafter⟩ := next_returns hafter
    obtain ⟨j₃, u, w₃, es₃, _, hcallback, hafter⟩ := next_returns hafter
    cases hafter
    unfold JobModel.save at hsave
    split at hsave
    · rw [Prog.run_bind, Prog.run_write, Prog.Outcome.andThen_ok] at hsave
      cases hsave
      exact ⟨j₁, o, w₁, es₁, j₂, w₂, es₂, es₃, hcall, hcoroutine, hcallback⟩
    · cases hsave

end Returns

/-! ## From the save to the end -/

section Rest

variable {env : Env} {n : JobName} {j : JobModel}

/-- Code that spares the stored `meta`, and leaves the object clean. -/
abbrev Spares {α : Type} (n : JobName) (p : Py (After α)) : Prop :=
  p.Steps (SparesMeta n) fun r => Clean n r.1

theorem clean_metadata (h : Clean n j) (v : PyValue) : Clean n { j with metadata := v } :=
  ⟨h.name, h.dirtyFields, h.saveAll⟩

theorem runCoroutine_spares (hj : Clean n j) {o : CallOutcome}
    (ho : ∀ p, o.coroutine = some p → p.Steps (SparesMeta n) fun _ => True) :
    Spares n (runCoroutine j o) := by
  unfold runCoroutine
  cases hc : o.coroutine with
  | none => exact hj
  | some p =>
      refine Prog.Steps.bind (ho p hc).attempt fun r _ => ?_
      cases r with
      | error x => exact hj
      | ok r => exact clean_metadata hj _

theorem callSuccessCallback_spares (hU : UserCode env (SparesMeta n)) (hj : Clean n j) :
    Spares n (j.callSuccessCallback env) := by
  unfold JobModel.callSuccessCallback JobModel.callCallback
  cases j.successCallbackName with
  | none => exact hj
  | some name =>
      dsimp only
      cases hr : Callback.resolve env name j.successCallbackTimeout with
      | error x => exact hj
      | ok f =>
          have hf := Callback.callableFunc_of_resolve hr
          refine (Prog.Steps.emit fun _ => rfl).bind fun _ _ => ?_
          have hcall : Spares n (j.call f) := by
            refine Prog.Steps.bind (hU name f j hf).attempt fun r _ => ?_
            cases r with
            | error x => exact hj
            | ok o =>
                dsimp only
                cases o.val with
                | error x => exact clean_metadata hj _
                | ok v => exact clean_metadata hj _
          exact After.next_steps hcall (fun _ _ hj => hj) fun _ _ hj => hj

/-- The coroutine that a call returned is user code as well. -/
theorem callFunc_returns (hU : UserCode env (SparesMeta n)) {job j₁ : JobModel} {o : CallOutcome}
    {w w₁ : World} {es : List Event} (h : (callFunc env job).run w = ⟨.ok (j₁, .ok o), w₁, es⟩) :
    j₁.name = job.name ∧ j₁.successCallbackName = job.successCallbackName ∧
      ∀ p, o.coroutine = some p → p.Steps (SparesMeta n) fun _ => True := by
  unfold callFunc at h
  cases hf : env.callableFunc job.funcName with
  | error x =>
      rw [hf] at h
      cases h
  | ok f =>
      rw [hf] at h
      have hcall : (job.call f).Steps (SparesMeta n) fun r => (r.1.name = job.name ∧
          r.1.successCallbackName = job.successCallbackName) ∧
          ∀ o, r.2 = .ok o → ∀ p, o.coroutine = some p → p.Steps (SparesMeta n) fun _ => True := by
        refine Prog.Steps.bind (hU _ f job hf).attempt fun r hr => ?_
        cases r with
        | error x => exact ⟨⟨rfl, rfl⟩, fun o ho => by cases ho⟩
        | ok o =>
            dsimp only
            cases o.val with
            | error x => exact ⟨⟨rfl, rfl⟩, fun o ho => by cases ho⟩
            | ok v =>
                refine ⟨⟨rfl, rfl⟩, fun o' ho' => ?_⟩
                cases ho'
                exact hr o rfl
      dsimp only at h
      rw [Prog.run_bind, Prog.run_emit, Prog.Outcome.andThen_ok] at h
      obtain ⟨hval, -⟩ := Prog.Outcome.mk.inj h
      obtain ⟨⟨hname, hcallback⟩, hcoroutine⟩ := hcall.val w hval
      exact ⟨hname, hcallback, hcoroutine o rfl⟩

theorem storedMeta_jobHandleSuccess (q : Queue) (hj : Clean n j) (v : PyValue) (ttl resultTtl : Int)
    (w : World) : ∃ r, ((q.jobHandleSuccess j v ttl resultTtl).run w).val = .ok r ∧
      r.1.metadata = j.metadata ∧
      storedMeta ((q.jobHandleSuccess j v ttl resultTtl).run w).state n = storedMeta w n := by
  have hname : j.name = n := hj.name
  subst hname
  have hmoved : ∀ r r' : Registry, storedMeta (j.moved ttl r r' w) j.name = storedMeta w j.name := by
    intro r r'
    unfold storedMeta
    rw [JobModel.moved_jobs]
  cases hs : j.serializable with
  | true =>
      rw [Queue.run_jobHandleSuccess q hs]
      refine ⟨_, rfl, rfl, ?_⟩
      -- of the fields only those that were just assigned are written
      have hnot : (j.ended .finished w.now).written false .metadata = false := by
        unfold JobModel.written JobModel.ended JobModel.setStatus JobModel.setEndedAt
          JobModel.setLastHeartbeat
        simp [hj.saveAll, hj.dirtyFields]
      have hsave := storedMeta_saveJob (j.moved ttl q.activeJobRegistry ⟨q.name, .finished⟩ w)
        (j.ended .finished w.now) false
      rw [hnot, if_neg Bool.false_ne_true] at hsave
      calc storedMeta (resultWorld j.name _ (q.endedWorld .finished j ttl .finished w)) j.name
          = storedMeta (q.endedWorld .finished j ttl .finished w) j.name := by
            unfold storedMeta
            rw [resultWorld_jobs]
        _ = storedMeta (j.moved ttl q.activeJobRegistry ⟨q.name, .finished⟩ w) j.name := hsave
        _ = storedMeta w j.name := hmoved _ _
  | false =>
      rw [Queue.run_jobHandleSuccess_error q hs]
      exact ⟨_, rfl, rfl, hmoved _ _⟩

/-- Where the performance of a job returns, the record has what is read of the `meta` that the call of the
function left: from that save on neither user code nor the program writes `meta`. -/
theorem storedMeta_performed {job j₁ : JobModel} {o : CallOutcome} {v : PyValue} {w w₁ w' : World}
    {es₁ es : List Event} (hU : UserCode env (SparesMeta job.name))
    (hcall : (callFunc env job).run (w.persistJob job.name) = ⟨.ok (j₁, .ok o), w₁, es₁⟩)
    (hperform : (queuePerformJob env job).run w = ⟨.ok (j, .ok v), w', es⟩) :
    Clean job.name j ∧ storedMeta w' job.name = some j₁.metadata.readBack := by
  obtain ⟨j₁', o', w₁', _, j₂, w₂, _, _, hcall', hcoroutine, hcallback⟩ :=
    queuePerformJob_returns hperform
  rw [hcall] at hcall'
  cases hcall'
  obtain ⟨hname, -, hcode⟩ := callFunc_returns hU hcall
  have hsaved : storedMeta (w₁.saveJob j₁ true) job.name = some j₁.metadata.readBack := by
    have hall : j₁.written true .metadata = true := rfl
    have hstored := storedMeta_saveJob w₁ j₁ true
    rw [hall, if_pos rfl, hname] at hstored
    exact hstored
  have hkeep : ∀ s s' es, SparesMeta job.name s s' es →
      storedMeta s job.name = some j₁.metadata.readBack →
      storedMeta s' job.name = some j₁.metadata.readBack :=
    fun s s' es hstep hs => hstep.trans hs
  have hclean : Clean job.name j₁.saved := ⟨hname, rfl, rfl⟩
  have hcoro := runCoroutine_spares hclean hcode
  have hclean₂ : Clean job.name j₂ := hcoro.val _ (congrArg Prog.Outcome.val hcoroutine)
  have hmeta₂ : storedMeta w₂ job.name = some j₁.metadata.readBack := by
    have hend := hcoro.exec hkeep hsaved
    rwa [Prog.exec_eq_of_run hcoroutine] at hend
  have hback := callSuccessCallback_spares hU hclean₂
  refine ⟨hback.val _ (congrArg Prog.Outcome.val hcallback), ?_⟩
  have hend := hback.exec hkeep hmeta₂
  rwa [Prog.exec_eq_of_run hcallback] at hend

/-- Without a coroutine and a success callback the object's `meta` is the one that the call left. -/
theorem metadata_of_plain {job j₁ : JobModel} {o : CallOutcome} {v : PyValue} {w w₁ w' : World}
    {es₁ es : List Event} (hU : UserCode env (SparesMeta job.name))
    (hcall : (callFunc env job).run (w.persistJob job.name) = ⟨.ok (j₁, .ok o), w₁, es₁⟩)
    (hperform : (queuePerformJob env job).run w = ⟨.ok (j, .ok v), w', es⟩)
    (hplain : o.coroutine = none) (hnone : job.successCallbackName = none) :
    j.metadata = j₁.metadata := by
  obtain ⟨j₁', o', w₁', _, j₂, w₂, _, _, hcall', hcoroutine, hcallback⟩ :=
    queuePerformJob_returns hperform
  rw [hcall] at hcall'
  cases hcall'
  obtain ⟨-, hcallbackName, -⟩ := callFunc_returns hU hcall
  have hsame : j₂.metadata = j₁.metadata ∧ j₂.successCallbackName = none := by
    unfold runCoroutine at hcoroutine
    rw [hplain] at hcoroutine
    have hval := Prog.Outcome.mk.inj hcoroutine
    have hobj : j₁.saved = j₂ := (Prod.mk.inj (Except.ok.inj hval.1)).1
    rw [← hobj]
    exact ⟨rfl, hcallbackName.trans hnone⟩
  unfold JobModel.callSuccessCallback JobModel.callCallback at hcallback
  rw [hsame.2] at hcallback
  cases hcallback
  exact hsame.1

end Rest

/-- **`meta` is stored as it was when the call returned.** User code that does not write the record
itself leaves the stored `meta` equal to the one in memory exactly when the latter is, in the end, what is
read of the JSON that the call of the function left; so it does where there is neither a coroutine nor a
success callback and JSON gives the value back. -/
theorem stored_meta_iff {env : Env} (q : Queue) {job j₁ j : JobModel} {o : CallOutcome} {v : PyValue}
    {w w₁ w' : World} {es₁ es : List Event} (hU : UserCode env (SparesMeta job.name))
    (hcall : (callFunc env job).run (w.persistJob job.name) = ⟨.ok (j₁, .ok o), w₁, es₁⟩)
    (hperform : (queuePerformJob env job).run w = ⟨.ok (j, .ok v), w', es⟩) :
    ((∃ r, ((execute env q job).run w).val = .ok r ∧
      storedMeta ((execute env q job).exec w) job.name = some r.1.metadata) ↔
    j.metadata = j₁.metadata.readBack) ∧
    (o.coroutine = none → job.successCallbackName = none → j₁.metadata.readBack = j₁.metadata →
      j.metadata = j₁.metadata.readBack) := by
  obtain ⟨hclean, hmeta⟩ := storedMeta_performed hU hcall hperform
  obtain ⟨r, hval, hmetadata, hstored⟩ :=
    storedMeta_jobHandleSuccess q hclean v j.jobInfoTtl j.successTtl w'
  have hrun : (execute env q job).run w
      = ⟨.ok r, ((q.jobHandleSuccess j v j.jobInfoTtl j.successTtl).run w').state,
        es ++ ((q.jobHandleSuccess j v j.jobInfoTtl j.successTtl).run w').trace⟩ := by
    unfold execute After.next
    rw [Prog.run_bind, hperform, Prog.Outcome.andThen_ok, ← hval]
    rfl
  have hexec : storedMeta ((execute env q job).exec w) job.name = some j₁.metadata.readBack := by
    rw [Prog.exec_eq_of_run hrun, hstored, hmeta]
  rw [hexec, hrun]
  refine ⟨⟨?_, ?_⟩, ?_⟩
  · rintro ⟨r', hr', hmeta⟩
    cases hr'
    rw [← hmetadata]
    exact (Option.some.inj hmeta).symm
  · intro hmeta
    exact ⟨r, rfl, by rw [hmetadata, hmeta]⟩
  · intro hplain hnone hjson
    exact (metadata_of_plain hU hcall hperform hplain hnone).trans hjson.symm

/-! ## A coroutine that reports its progress -/

def progress : PyValue := .dict [(.str "progress", .int 1)]

/-- `plain` changes `meta` before it returns, `coro` in the coroutine it returns. -/
def sampleEnv : Env := { Sample.env with
  callableFunc := fun s =>
    if s = "plain" then
      .ok fun _ => pure { val := .ok .none, metadata := progress, coroutine := none }
    else .ok fun job => pure
      { val := .ok .none
        metadata := job.metadata
        coroutine := some (pure { val := .ok .none, metadata := progress }) } }

def sampleJob (func : String) : JobModel := JobModel.new {} (Sample.args func) "q" "a" .started 0

def sampleWorld (func : String) : World := (World.init 0).saveJob (sampleJob func) true

theorem sample_userCode : UserCode sampleEnv (SparesMeta "a") := by
  intro name f job hf
  have hcases : (if name = "plain" then _ else _) = Except.ok f := hf
  split at hcases
  · cases hcases
    intro p hp
    cases hp
  · cases hcases
    intro p hp
    cases hp
    trivial

/-- The progress of the plain function is stored. -/
theorem sample_stored_meta :
    storedMeta ((execute sampleEnv Sample.queue (sampleJob "plain")).exec (sampleWorld "plain")) "a"
      = some progress := by
  have h := @stored_meta_iff sampleEnv Sample.queue (sampleJob "plain") _ _ _ _ (sampleWorld "plain")
    _ _ _ _ sample_userCode rfl rfl
  obtain ⟨r, hr, hmeta⟩ := h.1.2 (h.2 rfl rfl rfl)
  cases hr
  exact hmeta

/-- The progress of the coroutine is not. -/
theorem not_stored_meta : ¬ ∃ r,
    ((execute sampleEnv Sample.queue (sampleJob "coro")).run (sampleWorld "coro")).val = .ok r ∧
      storedMeta ((execute sampleEnv Sample.queue (sampleJob "coro")).exec (sampleWorld "coro")) "a"
        = some r.1.metadata := by
  rintro ⟨r, hr, hmeta⟩
  have hstored : storedMeta ((execute sampleEnv Sample.queue (sampleJob "coro")).exec
      (sampleWorld "coro")) "a" = some (.dict []) := rfl
  cases hr
  rw [hstored] at hmeta
  have hdict : (PyValue.dict []) = progress := Option.some.inj hmeta
  unfold progress at hdict
  injection hdict with hnil
  cases hnil

end DailyScheduler.Meta
