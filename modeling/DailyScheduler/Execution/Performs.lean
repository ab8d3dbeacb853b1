import DailyScheduler.Execution.Steps

set_option autoImplicit false

/-! # What performing a job does with the object

`queue_perform_job` saves the object it is given and hands it on; only its `meta` changes. So what
is true of the other attributes (`A`) is true of every object that is saved and of the one that
is left. `Performs env A R` says this of the attributes, and that each step is in `R`.
-/

namespace DailyScheduler

open AtomicProg

/-- Objects with the property `A` are performed in steps that are in `R`. -/
structure Performs (env : Env) (A : JobModel → Prop)
    (R : World → World → List Event → Prop) : Prop where
  saved : ∀ j, A j → A j.saved
  metadata : ∀ j v, A j → A { j with metadata := v }
  same : ∀ w, R w w []
  save : ∀ w j saveAll, A j → R w (w.saveJob j saveAll) []
  persist : ∀ w j, A j → R w (w.persistJob j.name) []
  called : ∀ w j, A j → R w w [.called j.name]
  success : ∀ w j, A j → R w w [.successCallback j.name]
  failure : ∀ w j, A j → R w w [.failureCallback j.name]
  user : UserCode env R

namespace Performs

variable {env : Env} {A : JobModel → Prop} {R : World → World → List Event → Prop}
  {j : JobModel}

theorem save_steps (h : Performs env A R) (hj : A j) (sa : Bool) :
    (j.save sa).Steps R fun r => A r.1 := by
  refine Prog.Steps.ite (fun _ => ?_) fun _ => hj
  exact (Prog.Steps.write fun w => h.save w j sa hj).bind fun _ _ => h.saved j hj

theorem call_steps (h : Performs env A R) {name : String} {f : JobModel → Py CallOutcome}
    (hf : env.callableFunc name = .ok f) (hj : A j) : (j.call f).Steps R fun r =>
      A r.1 ∧ ∀ o, r.2 = .ok o → ∀ p, o.coroutine = some p → p.Steps R fun _ => True := by
  refine Prog.Steps.bind (h.user name f j hf).attempt fun r hr => ?_
  cases r with
  | error x => exact ⟨hj, fun o ho => by cases ho⟩
  | ok o =>
      have hcoroutine := hr o rfl
      dsimp only
      cases o.val with
      | error x => exact ⟨h.metadata j _ hj, fun o ho => by cases ho⟩
      | ok v =>
          refine ⟨h.metadata j _ hj, fun o' ho' => ?_⟩
          cases ho'
          exact hcoroutine

theorem runCoroutine_steps (h : Performs env A R) (hj : A j) {o : CallOutcome}
    (ho : ∀ p, o.coroutine = some p → p.Steps R fun _ => True) :
    (runCoroutine j o).Steps R fun r => A r.1 := by
  unfold runCoroutine
  cases hc : o.coroutine with
  | none => exact hj
  | some p =>
      refine Prog.Steps.bind (ho p hc).attempt fun r _ => ?_
      cases r with
      | error x => exact hj
      | ok r => exact h.metadata j _ hj

theorem callCallback_steps (h : Performs env A R) (hj : A j) (name : Option String)
    (timeout : Option Int) {e : Event} (he : ∀ w, R w w [e]) :
    (j.callCallback env name timeout e).Steps R fun r => A r.1 := by
  unfold JobModel.callCallback
  cases name with
  | none => exact hj
  | some name =>
      dsimp only
      cases hr : Callback.resolve env name timeout with
      | error x => exact hj
      | ok f =>
          have hf := Callback.callableFunc_of_resolve hr
          refine (Prog.Steps.emit he).bind fun _ _ => ?_
          exact After.next_steps (h.call_steps hf hj) (fun _ _ hr => hr.1) fun _ _ hr => hr.1

theorem afterCall_steps (h : Performs env A R) (hj : A j) {o : CallOutcome}
    (ho : ∀ p, o.coroutine = some p → p.Steps R fun _ => True) :
    (afterCall env j o).Steps R fun r => A r.1 := by
  unfold afterCall
  refine After.next_steps (h.save_steps hj true) (fun j _ hj => ?_) fun _ _ hj => hj
  refine After.next_steps (h.runCoroutine_steps hj ho) (fun j _ hj => ?_) fun _ _ hj => hj
  exact After.next_steps (h.callCallback_steps hj _ _ fun w => h.success w j hj)
    (fun _ _ hj => hj) fun _ _ hj => hj

theorem performBody_steps (h : Performs env A R) (hj : A j) :
    (performBody env j).Steps R fun r => A r.1 := by
  have hfunc : (callFunc env j).Steps R fun r =>
      A r.1 ∧ ∀ o, r.2 = .ok o → ∀ p, o.coroutine = some p → p.Steps R fun _ => True := by
    unfold callFunc
    cases hf : env.callableFunc j.funcName with
    | error x => exact ⟨hj, fun o ho => by cases ho⟩
    | ok f =>
        refine (Prog.Steps.emit fun w => h.called w j hj).bind fun _ _ => ?_
        exact h.call_steps hf hj
  exact After.next_steps hfunc (fun j o hr => h.afterCall_steps hr.1 (hr.2 o rfl))
    fun _ _ hr => hr.1

/-- `queue_perform_job`. -/
theorem queuePerformJob_steps (h : Performs env A R) (hj : A j) :
    (queuePerformJob env j).Steps R fun r => A r.1 := by
  refine Prog.Steps.bind (Prog.Steps.write fun w => h.persist w j hj) fun _ _ => ?_
  refine Prog.Steps.bind (h.performBody_steps hj) fun r hr => ?_
  obtain ⟨j', x | v⟩ := r
  · refine Prog.Steps.ite (fun _ => ?_) fun _ => hr
    exact After.next_steps (h.callCallback_steps hr _ _ fun w => h.failure w j' hr)
      (fun _ _ hj => hj) fun _ _ hj => hj
  · exact hr

end Performs

end DailyScheduler
