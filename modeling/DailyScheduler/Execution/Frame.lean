import DailyScheduler.Execution.Steps
import DailyScheduler.Model.Operations
import DailyScheduler.Model.Sample
import DailyScheduler.Records.Keys

set_option autoImplicit false

/-! # What an operation on a job leaves alone

Creating, enqueuing, starting, ending, canceling and deleting a job of a queue with workers touches no
other job, of this queue or of another one: its record, its results and its entries in all registries
are what they were, deadlines and scores included.
-/

namespace DailyScheduler

open AtomicProg

/-- The record of the job with its deadline, its results with theirs and its entries in the registries
of every queue are the same. -/
structure Untouched (n : JobName) (w w' : World) : Prop where
  record : w'.jobs.entry n = w.jobs.entry n
  results : w'.results.entry n = w.results.entry n
  score : ∀ q k, (w'.registry q k).score n = (w.registry q k).score n

namespace Untouched

variable {n m : JobName} {w w' w'' : World}

theorem refl (w : World) : Untouched n w w := ⟨rfl, rfl, fun _ _ => rfl⟩

theorem trans (h : Untouched n w w') (h' : Untouched n w' w'') : Untouched n w w'' where
  record := h'.record.trans h.record
  results := h'.results.trans h.results
  score := fun q k => (h'.score q k).trans (h.score q k)

theorem find? (h : Untouched n w w') : w'.jobs.find? n = w.jobs.find? n := by
  unfold TtlMap.find?
  rw [h.record]

theorem inRegistry (h : Untouched n w w') (q : QueueName) (k : RegistryKind) :
    w'.inRegistry q k n ↔ w.inRegistry q k n := by
  rw [World.inRegistry_iff, World.inRegistry_iff, h.score]

theorem of_jobs (hrecord : w'.jobs.entry n = w.jobs.entry n) (hresults : w'.results = w.results)
    (hregistry : w'.registry = w.registry) : Untouched n w w' :=
  ⟨hrecord, by rw [hresults], fun q k => by rw [hregistry]⟩

theorem of_results (hresults : w'.results.entry n = w.results.entry n) (hjobs : w'.jobs = w.jobs)
    (hregistry : w'.registry = w.registry) : Untouched n w w' :=
  ⟨by rw [hjobs], hresults, fun q k => by rw [hregistry]⟩

section Commands

variable (w)

theorem zadd (q : QueueName) (k : RegistryKind) (s : Int) (h : n ≠ m) :
    Untouched n w (w.zadd q k m s) :=
  ⟨rfl, rfl, fun q' k' => by rw [World.score_zadd, if_neg fun h' => h h'.2.2]⟩

theorem zrem (q : QueueName) (k : RegistryKind) (h : n ≠ m) : Untouched n w (w.zrem q k m) :=
  ⟨rfl, rfl, fun q' k' => by rw [World.score_zrem, if_neg fun h' => h h'.2.2]⟩

theorem saveJob (j : JobModel) (sa : Bool) (h : n ≠ j.name) : Untouched n w (w.saveJob j sa) := by
  refine .of_jobs ?_ rfl rfl
  simp only [World.saveJob]
  split
  · exact TtlMap.entry_put_of_ne _ _ h
  · exact TtlMap.entry_erase_of_ne _ h

theorem deleteJob (h : n ≠ m) : Untouched n w (w.deleteJob m) :=
  .of_jobs (TtlMap.entry_erase_of_ne _ h) rfl rfl

theorem expireJob (d : Int) (h : n ≠ m) : Untouched n w (w.expireJob m d) :=
  .of_jobs (TtlMap.entry_setDeadline_of_ne _ _ h) rfl rfl

theorem persistJob (h : n ≠ m) : Untouched n w (w.persistJob m) :=
  .of_jobs (TtlMap.entry_setDeadline_of_ne _ _ h) rfl rfl

theorem hsetStatus (s : JobStatus) (h : n ≠ m) : Untouched n w (w.hsetStatus m s) :=
  .of_jobs (TtlMap.entry_put_of_ne _ _ h) rfl rfl

theorem xadd (r : Result (Option Stored)) (h : n ≠ r.parent) : Untouched n w (w.xadd r) := by
  refine .of_results ?_ rfl rfl
  unfold World.xadd ResultStreams.xadd
  dsimp only
  split
  · exact (TtlMap.entry_setDeadline_of_ne _ _ h).trans (TtlMap.entry_put_of_ne _ _ h)
  · exact (TtlMap.entry_setDeadline_of_ne _ _ h).trans (TtlMap.entry_put_of_ne _ _ h)

theorem deleteResults (h : n ≠ m) : Untouched n w (w.deleteResults m) :=
  .of_results (TtlMap.entry_erase_of_ne _ h) rfl rfl

end Commands

/-- The commands of an execution of another job. -/
theorem of_execStep {q : QueueName} {es : List Event} (h : ExecStep q m w w' es) (hm : n ≠ m) :
    Untouched n w w' := by
  cases h with
  | add k s => exact zadd w q k s hm
  | remove => exact zrem w q .active hm
  | save j sa hj => exact saveJob w j sa (hj ▸ hm)
  | persist => exact persistJob w hm
  | result r hr => exact xadd w r (hr ▸ hm)
  | deleteResults => exact deleteResults w hm
  | _ => exact ⟨rfl, rfl, fun _ _ => rfl⟩

/-- A function of another job's execution in which no user code is called. -/
theorem of_steps {α : Type} {q : QueueName} {p : Py α} {Q : α → Prop}
    (h : p.Steps (ExecOr q m fun _ _ _ => False) Q) (hm : n ≠ m) (w : World) :
    Untouched n w (p.exec w) := by
  refine h.exec (I := fun w' => Untouched n w w') (fun w₁ w₂ es hs hw => ?_) (refl w)
  exact hw.trans (of_execStep (hs.resolve_right id) hm)

/-! ## The operations -/

section Operations

variable (w) (env : Env) (q : Queue)

theorem enqueueJob {j : JobModel} (hq : q.isAsync = true) (atFront : Bool) (h : n ≠ j.name) :
    Untouched n w ((q.enqueueJob env j atFront).exec w) := by
  cases hs : j.serializable with
  | false =>
      rw [Prog.exec_eq_of_run (Queue.run_enqueueJob_error env q hs atFront w)]
      exact refl w
  | true =>
      rw [Prog.exec_eq_of_run (Queue.run_enqueueJob env hq hs atFront w)]
      have hsave := saveJob w (Queue.enqueuedModel j w.now) false h
      have hrem := zrem (w.saveJob (Queue.enqueuedModel j w.now) false) q.name .scheduled h
      exact (hsave.trans hrem).trans (zadd _ q.name .queued _ h)

/-- The job that `create_and_enqueue_job` makes has the name it is given, or one made of the queue,
the task and the time. -/
theorem createAndEnqueueJob (a : JobArgs) (when' : Queue.When) (hq : q.isAsync = true)
    (atFront : Bool) (h : n ≠ JobModel.nameFor a q.name w.now) :
    Untouched n w ((q.createAndEnqueueJob env a when' atFront).exec w) := by
  rw [Queue.exec_createAndEnqueueJob]
  cases JobModel.createError env a w with
  | some x => exact refl w
  | none =>
      have hsave := saveJob w (JobModel.fresh env a q.name (Queue.statusFor when') w.now) false h
      refine hsave.trans ?_
      cases when' with
      | none => exact enqueueJob _ env q hq atFront h
      | datetime t =>
          cases hs : (JobModel.fresh env a q.name (Queue.statusFor (.datetime t))
            w.now).saved.serializable with
          | true =>
              rw [Prog.exec_eq_of_run (Queue.run_placeJob_datetime env q hs t atFront _)]
              exact (saveJob _ _ false h).trans (zadd _ q.name .scheduled (t.timestamp env) h)
          | false =>
              have hexec : ∀ w', (q.placeJob env (JobModel.fresh env a q.name
                  (Queue.statusFor (.datetime t)) w.now).saved (.datetime t) atFront).exec w' = w' := by
                intro w'
                rw [Queue.placeJob, Prog.exec_bind, JobModel.run_get_save, After.exec_get,
                  JobModel.exec_save, hs]
                rfl
              rw [hexec]
              exact refl _
      | other => exact refl _

theorem removeFromRegistries (h : n ≠ m) : Untouched n w (q.removeFromRegistries m w) :=
  ((((zrem w q.name .finished h).trans (zrem _ q.name .scheduled h)).trans
    (zrem _ q.name .active h)).trans (zrem _ q.name .canceled h)).trans (zrem _ q.name .queued h)

theorem removeFromAll (h : n ≠ m) : Untouched n w (q.removeFromAll m w) :=
  (removeFromRegistries w q h).trans (zrem _ q.name .failed h)

theorem cancelJob (h : n ≠ m) : Untouched n w ((q.cancelJob env m).exec w) := by
  rw [Queue.exec_cancelJob]
  cases hf : JobModel.fetch env w m with
  | none => exact refl w
  | some job =>
      dsimp only
      split
      · exact refl w
      · have hname : n ≠ job.name := (JobModel.name_of_fetch hf).symm ▸ h
        have hset := hsetStatus w (Queue.cancelStatus job) hname
        have hrem := hset.trans (removeFromRegistries _ q h)
        unfold Queue.canceledWorld
        dsimp only
        split
        · exact hrem.trans (zadd _ q.name .canceled 0 h)
        · exact hrem.trans (zadd _ q.name .finished _ h)

theorem deleteJobOf (e : Bool) (h : n ≠ m) : Untouched n w ((q.deleteJob env m e).exec w) := by
  rw [Prog.exec_eq_of_run (Queue.run_deleteJob env q m e w), Queue.deletedWorld]
  cases hf : (if e then JobModel.fetch env w m else none) with
  | none => exact removeFromAll w q h
  | some job =>
      have hname : n ≠ job.name := by
        cases e with
        | false => cases hf
        | true => exact (JobModel.name_of_fetch hf).symm ▸ h
      dsimp only
      split
      · exact (deleteJob w hname).trans (removeFromAll _ q h)
      · unfold Queue.expireIn
        split
        · exact (removeFromAll w q h).trans (expireJob _ _ hname)
        · exact removeFromAll w q h

end Operations

end Untouched

/-! ## Any operation on one job -/

/-- The queue and the job that an operation is about, if it is about one job. -/
def Op.job? (w : World) : Op → Option (Queue × JobName)
  | .create q a _ _ => some (q, JobModel.nameFor a q.name w.now)
  | .enqueue q job _ => some (q, job.name)
  | .prepare q job _ => some (q, job.name)
  | .success q job _ _ _ => some (q, job.name)
  | .failure q _ job _ => some (q, job.name)
  | .cancel q n => some (q, n)
  | .delete q n _ => some (q, n)
  | _ => none

/-- The places of the store that an operation on a job may write as a whole. In a registry it writes
the job's own entry. -/
def Place.ofJob (n : JobName) : List Place := [.record n, .results n]

/-- **An operation on one job leaves every other job alone**: it touches neither what the other job
has nor the keys it is kept under. The one key that can be another's is that of the index, and it is
no job's that has a record. -/
theorem other_job_untouched (env : Env) {w : World} {o : Op} {q : Queue} {j : JobName}
    (ho : o.job? w = some (q, j)) (hq : q.isAsync = true) {n : JobName} (hn : n ≠ j) :
    Untouched n w (o.step env w) ∧
      ∀ a ∈ Place.ofJob n, ∀ b ∈ .index :: Place.ofJob j, a.key = b.key →
        a = .record "ALL:" ∧ b = .index := by
  refine ⟨?_, fun a ha b hb hkey => ?_⟩
  · cases o with
    | create q a when' atFront =>
        cases ho
        rw [Op.step_create]
        exact .createAndEnqueueJob w env q a when' hq atFront hn
    | enqueue q job atFront =>
        cases ho
        rw [Op.step_enqueue]
        exact .enqueueJob w env q hq atFront hn
    | prepare q job worker =>
        cases ho
        rw [Op.step_prepare]
        exact .of_steps (q := q.name) (prepareForExecution_steps rfl worker) hn w
    | success q job v ttl resultTtl =>
        cases ho
        rw [Op.step_success]
        exact .of_steps (jobHandleSuccess_steps rfl v ttl resultTtl) hn w
    | failure q status job exc =>
        cases ho
        rw [Op.step_failure]
        exact .of_steps (jobHandleFailure_steps rfl status exc) hn w
    | cancel q m =>
        cases ho
        exact .cancelJob w env q hn
    | delete q m e =>
        cases ho
        exact .deleteJobOf w env q e hn
    | _ => cases ho
  · simp only [Place.ofJob, List.mem_cons, List.not_mem_nil, or_false] at ha hb
    rcases Place.key_inj hkey with rfl | ⟨rfl, rfl⟩ | ⟨rfl, rfl⟩
    · -- the same place can only be that of one job
      rcases ha with rfl | rfl
      · rcases hb with hb | hb | hb
        · cases hb
        · exact absurd (Place.record.inj hb) hn
        · cases hb
      · rcases hb with hb | hb | hb
        · cases hb
        · cases hb
        · exact absurd (Place.results.inj hb) hn
    · exact ⟨rfl, rfl⟩
    · rcases ha with ha | ha <;> cases ha

theorem sample_other_job_untouched :
    Untouched "b" (Sample.worldWith ["a", "b"])
        ((Op.cancel Sample.queue "a").step Sample.env (Sample.worldWith ["a", "b"])) ∧
      ∀ a ∈ Place.ofJob "b", ∀ b ∈ .index :: Place.ofJob "a", a.key = b.key →
        a = .record "ALL:" ∧ b = .index :=
  other_job_untouched Sample.env (o := .cancel Sample.queue "a") rfl rfl (by decide)

end DailyScheduler
