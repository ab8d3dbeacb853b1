import DailyScheduler.Model.Sample
import DailyScheduler.Registries.Abandoned

set_option autoImplicit false

/-! # Started jobs in runs of executions, readings and cleanings

The operations that create and execute jobs, read registries, clean them, and let time pass. `Fits`
says what each has to find for a job that it works on. A reading may find no job whose score has
come, `clean_registries` none that it does not fail before it drops it.
-/

namespace DailyScheduler.Started

open AtomicProg

/-- The operation is one that creates or executes a job, reads or cleans, or the passage of time. -/
def Executes : Op → Bool
  | .requeue .. | .actionEnqueue .. | .cancel .. | .delete .. | .clear .. => false
  | _ => true

/-- An execution, a reading of registries, a cleaning or the passage of time. -/
inductive Act where
  | op (o : Op) (h : Executes o = true)
  /-- `queue_perform_job`, between the start and the end of an execution. -/
  | perform (job : JobModel)
  /-- `count` of a registry. -/
  | count (r : Registry)
  /-- `all` of a registry. -/
  | all (r : Registry) (start stop : Int)

namespace Act

def program (env : Env) : Act → Py Unit
  | .op o _ => o.program env
  | .perform job => do
      let _ ← queuePerformJob env job
  | .count r => do
      let _ ← r.count
  | .all r start stop => do
      let _ ← r.all start stop

def step (env : Env) (w : World) (a : Act) : World := (a.program env).exec w

/-- The act is a reading, a cleaning or the passage of time. -/
def observes : Act → Bool
  | .op (.tick _) _ | .op (.clean ..) _ | .op (.count _) _ | .op (.list _) _ => true
  | .count _ | .all .. => true
  | _ => false

end Act

/-- What an operation has to find for the job. -/
def OpFits (env : Env) (n : JobName) (w : World) : Op → Prop
  | .create q a when' _ => JobModel.nameFor a q.name w.now = n → q.isAsync = false →
      when' = .none → EnqueueFits env q
        (JobModel.fresh env a q.name (Queue.statusFor when') w.now).saved
        (w.saveJob (JobModel.fresh env a q.name (Queue.statusFor when') w.now) false)
  | .enqueue q job _ => job.name = n → q.isAsync = false → EnqueueFits env q job w
  | .start queues timeout _ fuel => ∀ j q,
      ((Queue.dequeueAny env queues timeout fuel).run w).val = .ok (some (j, q)) →
        j.name = n → j.queueName = q.name
  | .prepare q job _ => job.name = n → job.serializable = true → Names q.name job w
  | .success q job _ _ _ => job.name = n → Endable q.name .finished job w
  | .failure q status job _ => job.name = n → Endable q.name status job w
  | .clean q timestamp => CleanFits env q (Registry.cleanupScore timestamp w) n w
  | .count q => ¬ Overdue q.name (currentTimestamp w.now) n w
  | .list q => ¬ Overdue q.name (currentTimestamp w.now) n w
  | _ => True

/-- What an act has to find for the job. -/
def Fits (env : Env) (n : JobName) (w : World) : Act → Prop
  | .op o _ => OpFits env n w o
  | .perform job => job.name = n →
      InRun job.queueName n w ∨ job.status ≠ .started ∧ Idle n w
  | .count r => r.kind = .active → ¬ Overdue r.queue (currentTimestamp w.now) n w
  | .all r _ _ => r.kind = .active → ¬ Overdue r.queue (currentTimestamp w.now) n w

/-- A job that runs is not dropped from the active registry, unless it is reported as failed. -/
def Keeps (n : JobName) (w w' : World) : Prop :=
  ∀ q, Runs q n w → w'.inRegistry q .active n ∨ Reported q n w'

section Steps

variable {env : Env} {n : JobName} {w w' : World}

theorem Keeps.of_find? (h : Tracked n w') (hfind : w'.jobs.find? n = w.jobs.find? n) :
    Keeps n w w' :=
  fun _ hruns => Or.inl (h.active ((Runs.congr hfind).2 hruns))

/-- Reading a registry. -/
theorem Tracked.read {r : Registry} (hw : Tracked n w)
    (h : r.kind = .active → ¬ Overdue r.queue (currentTimestamp w.now) n w) :
    Tracked n (r.cleaned none w) := by
  by_cases hk : r.kind = .active
  · have hcurrent : Current r.queue (currentTimestamp w.now) n w := ⟨hw, h hk⟩
    exact (hcurrent.cleaned rfl rfl).1
  · have hfind : (r.cleaned none w).jobs.find? n = w.jobs.find? n := by rw [Registry.cleaned_jobs]
    intro hs
    rw [status_congr hfind] at hs
    obtain ⟨q, hq, hin⟩ := hw hs
    refine ⟨q, (field_congr hfind _).trans hq, ?_⟩
    rw [World.inRegistry_iff, Registry.score_cleaned, if_neg fun h' => hk h'.2.2.symm]
    rwa [World.inRegistry_iff] at hin

/-- Elapsed time may take the record away, and changes no registry. -/
theorem Tracked.advance (hw : Tracked n w) (d : Nat) : Tracked n (w.advance d) := by
  by_cases h : ∀ t, w.jobs.deadline n = some t → w.now + d < t
  · have hfind : (w.advance d).jobs.find? n = w.jobs.find? n := by
      show (w.jobs.purge _).find? n = _
      rw [TtlMap.find?_purge, if_pos h]
    intro hs
    rw [status_congr hfind] at hs
    obtain ⟨q, hq, hin⟩ := hw hs
    exact ⟨q, (field_congr hfind _).trans hq, hin⟩
  · have hgone : (w.advance d).jobs.find? n = none := by
      show (w.jobs.purge _).find? n = _
      rw [TtlMap.find?_purge, if_neg h]
    intro hs
    rw [World.status, hgone] at hs
    cases hs

theorem current_reads {q : QueueName} (hw : Tracked n w)
    (h : ¬ Overdue q (currentTimestamp w.now) n w) (hr : Reads q w w') :
    Tracked n w' ∧ Keeps n w w' := by
  have hcurrent := hr.current n ⟨hw, h⟩
  exact ⟨hcurrent.1, .of_find? hcurrent.1 (by rw [hr.jobs])⟩

theorem Tracked.reading {r : Registry} (hw : Tracked n w)
    (h : r.kind = .active → ¬ Overdue r.queue (currentTimestamp w.now) n w) :
    Tracked n (r.cleaned none w) ∧ Keeps n w (r.cleaned none w) :=
  ⟨hw.read h, .of_find? (hw.read h) (by rw [Registry.cleaned_jobs])⟩

/-- An operation that finds what it has to keeps the job tracked, and drops it only when it reports
it. -/
theorem Tracked.op (hU : UserCode env (SparesStep n)) (hw : Tracked n w) (o : Op)
    (h : Executes o = true) (hfits : OpFits env n w o) :
    Tracked n (o.step env w) ∧
      ((Act.op o h).observes = true → Keeps n w (o.step env w)) := by
  cases o with
  | tick d => exact ⟨hw.advance d, fun _ _ hruns => Or.inl (hw.active hruns)⟩
  | create q a when' atFront =>
      rw [Op.step_create]
      exact ⟨hw.create hU hfits atFront, fun h => by cases h⟩
  | enqueue q job atFront =>
      rw [Op.step_enqueue]
      exact ⟨hw.enqueue hU hfits atFront, fun h => by cases h⟩
  | start queues timeout worker fuel => exact ⟨hw.start hfits, fun h => by cases h⟩
  | prepare q job worker =>
      rw [Op.step_prepare]
      exact ⟨hw.prepare worker hfits, fun h => by cases h⟩
  | success q job v ttl resultTtl =>
      rw [Op.step_success]
      exact ⟨hw.success hU hfits v ttl resultTtl, fun h => by cases h⟩
  | finish q job v => exact ⟨hw.finish hU v, fun h => by cases h⟩
  | failure q status job exc =>
      rw [Op.step_failure]
      exact ⟨hw.failure hU hfits exc, fun h => by cases h⟩
  | clean q timestamp =>
      obtain ⟨htracked, hkeeps⟩ := hw.clean hU timestamp hfits
      exact ⟨htracked, fun _ => hkeeps⟩
  | count q =>
      rw [Op.step_count]
      obtain ⟨htracked, hkeeps⟩ :=
        current_reads hw hfits (reads_countOf (l := q.registries) queue_of_registries w)
      exact ⟨htracked, fun _ => hkeeps⟩
  | list q =>
      rw [Op.step_list]
      obtain ⟨htracked, hkeeps⟩ := current_reads hw hfits (reads_getAllJobNames q w)
      exact ⟨htracked, fun _ => hkeeps⟩
  | requeue => cases h
  | actionEnqueue => cases h
  | cancel => cases h
  | delete => cases h
  | clear => cases h

theorem Tracked.step (hU : UserCode env (SparesStep n)) (hw : Tracked n w) (a : Act)
    (hfits : Fits env n w a) :
    Tracked n (a.step env w) ∧ (a.observes = true → Keeps n w (a.step env w)) := by
  cases a with
  | op o h => exact hw.op hU o h hfits
  | perform job =>
      have hstep : (Act.perform job).step env w = (queuePerformJob env job).exec w :=
        exec_ignore _ w
      rw [hstep]
      exact ⟨hw.perform hU hfits, fun h => by cases h⟩
  | count r =>
      have hstep : (Act.count r).step env w = r.cleaned none w :=
        (exec_ignore _ w).trans (Prog.exec_eq_of_run (Registry.run_count r w))
      rw [hstep]
      exact ⟨(hw.reading hfits).1, fun _ => (hw.reading hfits).2⟩
  | all r i k =>
      have hstep : (Act.all r i k).step env w = r.cleaned none w :=
        (exec_ignore _ w).trans (Prog.exec_eq_of_run (Registry.run_all r i k w))
      rw [hstep]
      exact ⟨(hw.reading hfits).1, fun _ => (hw.reading hfits).2⟩

end Steps

/-! ## Runs -/

/-- **A started job is in the active registry**, at every boundary of a run in which no reading and
no cleaning comes to drop it; and those that observe drop it only when they report it as failed. -/
theorem started_tracked_along {env : Env} {n : JobName} (hU : UserCode env (SparesStep n))
    {w : World} (hw : Tracked n w) {l : List Act}
    (hfits : Run.Meets (Act.step env) (Fits env n) w l) :
    Run.Along (Act.step env) (Tracked n) w l ∧
      Run.Meets (Act.step env) (fun w a => a.observes = true → Keeps n w (a.step env w)) w l :=
  Run.along_and_meets_of_step (fun _ a hw hfit => hw.step hU a hfit) hw hfits

/-- A job with the given timeout. -/
def sampleArgs (timeout : Int) : JobArgs :=
  { Sample.args "ok" with name := some "a", timeout := some timeout }

/-- The job is created and started, and then its registry is counted. -/
def sampleRun (timeout : Int) : List Act :=
  [.op (.tick 10000000) rfl, .op (.create Sample.queue (sampleArgs timeout) .none false) rfl,
    .op (.start [Sample.queue] none "w" 1) rfl, .count Sample.queue.activeJobRegistry]

/-- The world after the first `k` acts of the run with the timeout of a minute. -/
def sampleWorld (k : Nat) : World :=
  Run.last (Act.step Sample.env) (World.init 0) ((sampleRun 60).take k)

theorem sample_started_tracked :
    Run.Along (Act.step Sample.env) (Tracked "a") (World.init 0) (sampleRun 60) ∧
      Run.Meets (Act.step Sample.env) (fun w a => a.observes = true →
        Keeps "a" w (a.step Sample.env w)) (World.init 0) (sampleRun 60) := by
  refine started_tracked_along (Sample.userCode _) (fun h => by cases h)
    ⟨trivial, ?_, ?_, ?_, trivial⟩
  · exact fun _ h => by cases h
  · intro j q hv _
    have hnames : (((Queue.dequeueAny Sample.env [Sample.queue] none 1).run
        (sampleWorld 2)).val.toOption.join.all fun p => decide (p.1.queueName = p.2.name)) = true := by
      decide +kernel
    rw [show ((Queue.dequeueAny Sample.env [Sample.queue] none 1).run (sampleWorld 2)).val
      = .ok (some (j, q)) from hv] at hnames
    exact of_decide_eq_true hnames
  · rintro - ⟨-, s, hs, -, hlate⟩
    have hscore : ((sampleWorld 3).registry "q" .active).score "a" = some 70000000 := by
      decide +kernel
    have hnow : currentTimestamp (sampleWorld 3).now = 10000000 := by decide +kernel
    rw [show (Act.step Sample.env _ _).registry = (sampleWorld 3).registry from rfl] at hs
    rw [show (Act.step Sample.env _ _).now = (sampleWorld 3).now from rfl, hnow] at hlate
    cases hs.symm.trans hscore
    omega

/-- The job of a task without a timeout, `-1`, is dropped by the first reading. -/
theorem endless_job_dropped : ¬ ∀ (env : Env) (n : JobName) (w : World) (l : List Act),
    UserCode env (SparesStep n) → Tracked n w → Run.Along (Act.step env) (Tracked n) w l := by
  intro h
  have hlast := (h Sample.env "a" (World.init 0) (sampleRun (-1)) (Sample.userCode _)
    (fun h => by cases h)).last
  obtain ⟨q, hq, hin⟩ := hlast (by decide +kernel)
  have hqueue : (Run.last (Act.step Sample.env) (World.init 0) (sampleRun (-1))).storedField "a"
      .queueName = some "q" := by decide +kernel
  rw [hqueue] at hq
  cases hq
  exact absurd hin (by decide +kernel)

end DailyScheduler.Started
