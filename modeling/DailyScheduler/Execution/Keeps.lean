import DailyScheduler.Execution.Steps
import DailyScheduler.Lib.Invariant

set_option autoImplicit false

/-! # Invariants that an execution keeps

An invariant of the world and the log that the broker commands of an execution keep, and the user
code as well, is kept by the whole execution. Here user code is bounded by what it does as a whole
(`UserKeeps`), not step by step.
-/

namespace DailyScheduler

open AtomicProg

/-- Every call of user code, and every coroutine it returns, keeps the invariant. -/
def UserKeeps (env : Env) (I : Config World Event → Prop) : Prop :=
  ∀ name f job, env.callableFunc name = .ok f →
    (f job).Inv I fun o => ∀ p, o.coroutine = some p → p.Inv I fun _ => True

theorem UserCode.keeps {env : Env} {U : World → World → List Event → Prop} (h : UserCode env U)
    {I : Config World Event → Prop}
    (hU : ∀ w t w' es, U w w' es → I (w, t) → I (w', t ++ es)) : UserKeeps env I := by
  intro name f job hf
  refine (Prog.Inv.of_steps (h name f job hf) hU).mono fun o ho p hp => ?_
  exact Prog.Inv.of_steps (ho p hp) hU

/-- The broker commands and the call of an execution of the job `n` keep the invariant. -/
structure ExecKeeps (q : QueueName) (n : JobName) (I : Config World Event → Prop) : Prop where
  step : ∀ w t w' es, ExecStep q n w w' es → I (w, t) → I (w', t ++ es)
  called : ∀ w t, I (w, t) → I (w, t ++ [.called n])

section Methods

variable {I : Config World Event → Prop} {env : Env} {q : QueueName} {n : JobName}

theorem After.next_inv {α β : Type} {P : After α → Prop} {P' : After β → Prop} {p : Py (After α)}
    {f : JobModel → α → Py (After β)} (hp : p.Inv I P)
    (hf : ∀ j a, P (j, .ok a) → (f j a).Inv I P')
    (hx : ∀ j x, P (j, .error x) → P' (j, .error x)) : (After.next p f).Inv I P' := by
  refine hp.bind fun r hr => ?_
  obtain ⟨j, x | a⟩ := r
  · exact Prog.Inv.ret (hx j x hr)
  · exact hf j a hr

theorem After.get_inv {α : Type} {P : After α → Prop} {Q : JobModel × α → Prop}
    {p : Py (After α)} (hp : p.Inv I P) (h : ∀ j a, P (j, .ok a) → Q (j, a)) :
    (After.get p).Inv I Q := by
  refine hp.bind fun r hr => ?_
  obtain ⟨j, x | a⟩ := r
  · exact Prog.Inv.raise
  · exact Prog.Inv.ret (h j a hr)

/-- A function without user code in it keeps what its broker commands keep. -/
theorem ExecKeeps.of_steps {α : Type} (hI : ExecKeeps q n I) {p : Py α} {Q : α → Prop}
    (h : p.Steps (ExecOr q n fun _ _ _ => False) Q) : p.Inv I Q :=
  Prog.Inv.of_steps h fun w t w' es hs hw =>
    hI.step w t w' es (hs.resolve_right id) hw

theorem call_inv (hU : UserKeeps env I) {name : String} {f : JobModel → Py CallOutcome}
    (hf : env.callableFunc name = .ok f) {j : JobModel} (hj : j.name = n) :
    (j.call f).Inv I fun r =>
      Named n r ∧ ∀ o, r.2 = .ok o → ∀ p, o.coroutine = some p → p.Inv I fun _ => True := by
  refine Prog.Inv.bind (hU name f j hf).attempt fun r hr => ?_
  cases r with
  | error x => exact Prog.Inv.ret ⟨hj, by simp⟩
  | ok o =>
      have ho := hr o rfl
      dsimp only
      cases o.val with
      | error x => exact Prog.Inv.ret ⟨hj, by simp⟩
      | ok v =>
          refine Prog.Inv.ret ⟨hj, fun o' h => ?_⟩
          cases h
          exact ho

theorem runCoroutine_inv {j : JobModel} (hj : j.name = n) {o : CallOutcome}
    (ho : ∀ p, o.coroutine = some p → p.Inv I fun _ => True) :
    (runCoroutine j o).Inv I (Named n) := by
  unfold runCoroutine
  cases hc : o.coroutine with
  | none => exact Prog.Inv.ret hj
  | some p =>
      refine Prog.Inv.bind (ho p hc).attempt fun r _ => ?_
      cases r with
      | error x => exact Prog.Inv.ret hj
      | ok r => exact Prog.Inv.ret hj

theorem callCallback_inv (hU : UserKeeps env I) {j : JobModel} (hj : j.name = n)
    (name : Option String) (timeout : Option Int) {e : Event}
    (he : ∀ w t, I (w, t) → I (w, t ++ [e])) :
    (j.callCallback env name timeout e).Inv I (Named n) := by
  unfold JobModel.callCallback
  cases name with
  | none => exact Prog.Inv.ret hj
  | some name =>
      dsimp only
      cases hr : Callback.resolve env name timeout with
      | error x => exact Prog.Inv.ret hj
      | ok f =>
          have hf := Callback.callableFunc_of_resolve hr
          refine (Prog.Inv.emit he).bind fun _ _ => ?_
          exact After.next_inv (call_inv hU hf hj) (fun j a h => Prog.Inv.ret h.1)
            fun j x h => h.1

theorem callSuccessCallback_inv (hI : ExecKeeps q n I) (hU : UserKeeps env I) {j : JobModel}
    (hj : j.name = n) : (j.callSuccessCallback env).Inv I (Named n) :=
  callCallback_inv hU hj _ _ fun w t h => hI.step w t w _ (hj ▸ .success w) h

theorem callFailureCallback_inv (hI : ExecKeeps q n I) (hU : UserKeeps env I) {j : JobModel}
    (hj : j.name = n) : (j.callFailureCallback env).Inv I (Named n) :=
  callCallback_inv hU hj _ _ fun w t h => hI.step w t w _ (hj ▸ .failure w) h

theorem afterCall_inv (hI : ExecKeeps q n I) (hU : UserKeeps env I) {j : JobModel}
    (hj : j.name = n) {o : CallOutcome}
    (ho : ∀ p, o.coroutine = some p → p.Inv I fun _ => True) :
    (afterCall env j o).Inv I (Named n) := by
  refine After.next_inv (hI.of_steps (save_steps true hj)) (fun j _ hj => ?_) fun _ _ h => h
  refine After.next_inv (runCoroutine_inv hj ho) (fun j _ hj => ?_) fun _ _ h => h
  exact After.next_inv (callSuccessCallback_inv hI hU hj) (fun _ _ h => Prog.Inv.ret h)
    fun _ _ h => h

theorem performBody_inv (hI : ExecKeeps q n I) (hU : UserKeeps env I) {j : JobModel}
    (hj : j.name = n) : (performBody env j).Inv I (Named n) := by
  have hfunc : (callFunc env j).Inv I fun r => Named n r ∧ ∀ o, r.2 = .ok o →
      ∀ p, o.coroutine = some p → p.Inv I fun _ => True := by
    unfold callFunc
    cases hf : env.callableFunc j.funcName with
    | error x => exact Prog.Inv.ret ⟨hj, by simp⟩
    | ok f =>
        have hcalled : ∀ w t, I (w, t) → I (w, t ++ [.called j.name]) :=
          fun w t h => hj ▸ hI.called w t h
        exact (Prog.Inv.emit hcalled).bind fun _ _ => call_inv hU hf hj
  exact After.next_inv hfunc (fun j' o h => afterCall_inv hI hU h.1 (h.2 o rfl)) fun _ _ h => h.1

theorem exceptClause_inv (hI : ExecKeeps q n I) (hU : UserKeeps env I) {r : After PyValue}
    (hr : Named n r) : (exceptClause env r).Inv I (Named n) := by
  obtain ⟨j, x | v⟩ := r
  · refine Prog.Inv.ite (fun _ => ?_) fun _ => Prog.Inv.ret hr
    exact After.next_inv (callFailureCallback_inv hI hU hr) (fun _ _ h => Prog.Inv.ret h)
      fun _ _ h => h
  · exact Prog.Inv.ret hr

theorem queuePerformJob_inv (hI : ExecKeeps q n I) (hU : UserKeeps env I) {j : JobModel}
    (hj : j.name = n) : (queuePerformJob env j).Inv I (Named n) := by
  have hpersist : j.persist.Inv I fun _ => True :=
    hI.of_steps (writeStep fun w => hj ▸ .persist w)
  refine hpersist.bind fun _ _ => ?_
  exact (performBody_inv hI hU hj).bind fun r hr => exceptClause_inv hI hU hr

theorem runSync_inv {queue : Queue} (hI : ExecKeeps queue.name n I) (hU : UserKeeps env I)
    {j : JobModel} (hj : j.name = n) : (queue.runSync env j).Inv I (Named n) := by
  refine After.next_inv (hI.of_steps (prepareForExecution_steps hj "sync")) (fun j _ hj => ?_)
    fun _ _ h => h
  refine Prog.Inv.bind (Q := Named n) ?_ fun r hr => ?_
  · refine After.next_inv (queuePerformJob_inv hI hU hj) (fun j v hj => ?_) fun _ _ h => h
    exact hI.of_steps (jobHandleSuccess_steps hj v _ _)
  · obtain ⟨j', x | a⟩ := r
    · refine Prog.Inv.ite (fun _ => ?_) fun _ => Prog.Inv.ret hr
      exact hI.of_steps (jobHandleFailure_steps hr _ _)
    · exact Prog.Inv.ret hr

end Methods

/-- The sample's user code keeps everything. -/
theorem Sample.userKeeps (I : Config World Event → Prop) : UserKeeps Sample.env I :=
  (Sample.userCode fun _ _ _ => False).keeps fun _ _ _ _ h => h.elim

end DailyScheduler
