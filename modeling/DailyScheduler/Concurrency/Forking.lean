import DailyScheduler.Execution.Workers
import DailyScheduler.Lib.Copies
import DailyScheduler.Lib.Run
import DailyScheduler.Model.Sample

set_option autoImplicit false

/-! # The process that executes a job

A worker forks for each job. From then on there are two copies of its record: the process writes which job
it performs, and counts its outcome; the worker monitors it, and whenever an interval is over its heartbeat
saves all of its own copy, which it made before the fork. For every interleaving: as long as each of these
saves finds the name and the counters as the worker's copy has them, the record says which job is performed
until its outcome is counted, and the worker loads what the process has counted.
-/

namespace DailyScheduler.Forking

open AtomicProg

/-! ## The name and the counters -/

/-- What the process writes into the record, and the worker does not. -/
structure Tally where
  currentJobName : Option JobName
  successfulJobCount : Int
  failedJobCount : Int
  completedJobs : Int
  deriving DecidableEq

def tallyFields : List WorkerField :=
  [.currentJobName, .successfulJobCount, .failedJobCount, .completedJobs]

/-- The tally of an object. -/
def tally (m : WorkerModel) : Tally :=
  ⟨m.currentJobName, m.successfulJobCount, m.failedJobCount, m.completedJobs⟩

/-- The tally of the record. -/
def storedTally (n : WorkerName) (w : World) : Tally where
  currentJobName := w.workerField n .currentJobName
  successfulJobCount := (w.workerField n .successfulJobCount).getD 0
  failedJobCount := (w.workerField n .failedJobCount).getD 0
  completedJobs := (w.workerField n .completedJobs).getD 0

/-- How the process handles a job: a failure counts unless the job was stopped. -/
inductive Outcome where
  | succeeded | failed | stopped
  deriving DecidableEq

namespace Tally

/-- The job is being performed. -/
def performing (t : Tally) (j : JobName) : Tally := { t with currentJobName := some j }

/-- The outcome is counted. -/
def counted (t : Tally) : Outcome → Tally
  | .succeeded => ⟨none, t.successfulJobCount + 1, t.failedJobCount, t.completedJobs + 1⟩
  | .failed => ⟨none, t.successfulJobCount, t.failedJobCount + 1, t.completedJobs + 1⟩
  | .stopped => ⟨none, t.successfulJobCount, t.failedJobCount, t.completedJobs⟩

end Tally

/-! ## The worker and the process -/

inductive Role where
  | parent | child
  deriving DecidableEq

/-- Where the process is: before and after its first lines, performing a job, or behind it. When storing
the outcome has raised, nothing is counted. -/
inductive Stage where
  | forked
  | ready
  | performing (j : JobName)
  | handled (o : Outcome)
  | lost (j : JobName)
  deriving DecidableEq

/-- Each has its copy of the record. -/
inductive Party where
  | parent (w : Worker)
  | child (w : Worker) (stage : Stage)

inductive Method where
  /-- The worker saves the process id. -/
  | rememberProcess (pid : Int)
  /-- The monitoring interval is over. -/
  | monitoringTick (job : JobModel)
  /-- The waiting was interrupted. -/
  | heartbeat
  | refresh
  | resetWorkingTime
  /-- The first lines of the process. -/
  | startProcess
  | workerBeforeExecution (job : JobModel)
  | finishSuccess (job : JobModel)
  | handleJobFailure (job : JobModel) (queue : Queue)

/-- The methods that handle an outcome. -/
def Method.handles : Method → Bool
  | .finishSuccess _ => true
  | .handleJobFailure _ _ => true
  | _ => false

/-- The methods that load the record. -/
def loads : Method → Bool
  | .refresh => true
  | _ => false

/-- What `handle_job_failure` counts for a job of this status. -/
def failureOutcome (status : JobStatus) : Outcome := if status = .failed then .failed else .stopped

/-- The stage after `handle_job_failure`. -/
def afterFailure (j : JobName) (r : After Unit) : Stage :=
  match r.2 with
  | .ok _ => .handled (failureOutcome r.1.status)
  | .error _ => .lost j

def Method.program (env : Env) : Method → Party → Py Party
  | .rememberProcess pid, .parent w => do
      let w ← w.rememberProcess env pid
      pure (.parent w)
  | .monitoringTick job, .parent w => do
      let (w, _) ← w.monitoringTick env job
      pure (.parent w)
  | .heartbeat, .parent w => do
      let w ← w.heartbeat env 0
      pure (.parent w)
  | .refresh, .parent w => do
      let w ← w.refresh
      pure (.parent w)
  | .resetWorkingTime, .parent w => do
      let w ← w.resetWorkingTime env
      pure (.parent w)
  | .startProcess, .child w _ => do
      let w ← w.startProcess env
      pure (.child w .ready)
  | .workerBeforeExecution job, .child w _ => do
      let w ← w.workerBeforeExecution env job
      pure (.child w (.performing job.name))
  | .finishSuccess job, .child w _ => do
      let (w, _) ← w.finishSuccess env job
      pure (.child w (.handled .succeeded))
  | .handleJobFailure job queue, .child w _ => do
      let (w, r) ← w.handleJobFailure env job queue "traceback"
      pure (.child w (afterFailure job.name r))
  | _, o => pure o

/-- The worker's methods in any order; those of the process in theirs, for one job. -/
def allowed : Party → Method → Bool
  | .parent _, .rememberProcess _ => true
  | .parent _, .monitoringTick _ => true
  | .parent _, .heartbeat => true
  | .parent _, .refresh => true
  | .parent _, .resetWorkingTime => true
  | .child _ .forked, .startProcess => true
  | .child _ .ready, .workerBeforeExecution _ => true
  | .child _ (.performing j), .finishSuccess job => job.name = j
  | .child _ (.performing j), .handleJobFailure job _ => job.name = j
  | _, _ => false

def methods (env : Env) : Methods Party Method World Event PyError where
  allowed := allowed
  program := Method.program env

/-- The parties, whether the process has ended, and whether the worker has loaded the record since. -/
structure System where
  copies : Copies Role Tally Party Method World Event PyError
  exited : Bool
  refreshed : Bool

/-- What can happen to the record `n`: a party begins a method or takes its next step, the process ends, by
itself or because it is killed, time passes, or something else happens that leaves the tally alone, such as
the job's own code or a command. -/
inductive Move (n : WorkerName) where
  | call (r : Role) (m : Method)
  | go (r : Role)
  | exit
  | pass (d : Nat)
  | elsewhere (f : World → World) (h : ∀ w, storedTally n (f w) = storedTally n w)

namespace System

def state (S : System) : World := S.copies.objects.state

/-- A process that has ended does nothing, and the worker refreshes when it has. -/
def blocked (S : System) (r : Role) (m : Option Method) : Bool :=
  match r with
  | .parent => !S.exited && (m.any loads)
  | .child => S.exited

def step (env : Env) (n : WorkerName) (S : System) : Move n → System
  | .call r m => if S.blocked r (some m) then S else { S with copies := S.copies.call (methods env) r m }
  | .go r =>
      if S.blocked r none then S
      else { S with
        copies := S.copies.go (storedTally n) loads r
        refreshed := S.refreshed || (decide (r = .parent) && S.exited && S.copies.loading loads .parent) }
  | .exit => { S with exited := true }
  | .pass d => { S with copies := S.copies.outside fun w => w.advance d }
  | .elsewhere f _ => { S with copies := S.copies.outside f }

/-- Right after the fork: both have the copy of the worker. -/
def start (w : Worker) (childPid : Int) (s : World) : System where
  copies := {
    objects := {
      object := fun r => match r with
        | .parent => .parent w
        | .child => .child { w with pid := childPid } .forked
      doing := fun _ => none
      state := s
      log := [] }
    seen := fun _ => some (tally w.model) }
  exited := false
  refreshed := false

/-! ## What the record tells of the process -/

/-- The record of the worker `n`, which had the tally `base` at the fork, says what the process does and has
done. -/
structure Recorded (n : WorkerName) (base : Tally) (S : System) : Prop where
  performing : ∀ w j, S.copies.objects.doing .child = none →
    S.copies.objects.object .child = .child w (.performing j) →
    storedTally n S.state = base.performing j
  handling : ∀ m p w j, S.copies.objects.doing .child = some (m, p) → ¬ S.copies.objects.Raised .child →
    m.handles = true → S.copies.objects.object .child = .child w (.performing j) →
    storedTally n S.state = base.performing j ∨ ∃ o, storedTally n S.state = base.counted o
  handled : ∀ w o, S.copies.objects.doing .child = none →
    S.copies.objects.object .child = .child w (.handled o) → storedTally n S.state = base.counted o
  refreshed : ∀ w, S.refreshed = true → S.copies.objects.doing .parent = none →
    S.copies.objects.object .parent = .parent w → tally w.model = storedTally n S.state

/-! ## Copies that are current -/

/-- When the worker saves its whole copy, the tally of the record is that of the copy; and the record does
not expire. -/
def Undisturbed {n : WorkerName} (S : System) : Move n → Prop
  | .go .parent => S.copies.Fresh (storedTally n) .parent
  | .pass d => ∀ t, S.state.workers.deadline n = some t → S.state.now + d < t
  | _ => True

end System

/-! ## The tally in the record -/

section Stored

variable {n : WorkerName} {w : World}

theorem storedTally_congr {w' : World}
    (h : ∀ f ∈ tallyFields, w'.workerField n f = w.workerField n f) : storedTally n w' = storedTally n w := by
  simp only [tallyFields, List.forall_mem_cons] at h
  obtain ⟨hname, hsuccessful, hfailed, hcompleted, -⟩ := h
  unfold storedTally
  rw [hname, hsuccessful, hfailed, hcompleted]

theorem storedTally_of_workers {w' : World} (h : w'.workers = w.workers) :
    storedTally n w' = storedTally n w :=
  storedTally_congr fun _ _ => World.workerField_of_workers h

theorem storedTally_hsetWorker {f : WorkerField} (hf : f ∉ tallyFields) (n' : WorkerName) (v : f.Ty) :
    storedTally n (w.hsetWorker n' f v) = storedTally n w := by
  refine storedTally_congr fun g hg => World.workerField_hsetWorker_of_ne (fun h => ?_) n' v
  subst h
  exact hf hg

theorem storedTally_expireWorker (n' : WorkerName) (d : Int) :
    storedTally n (w.expireWorker n' d) = storedTally n w :=
  storedTally_congr fun _ _ => World.workerField_expireWorker n' d

theorem storedTally_advance {d : Nat} (h : ∀ t, w.workers.deadline n = some t → w.now + d < t) :
    storedTally n (w.advance d) = storedTally n w :=
  storedTally_congr fun _ _ => World.workerField_advance h

/-- A save that writes none of the fields. -/
theorem storedTally_saveWorker_of_clean (cfg : SchedulerConfiguration) {m : WorkerModel} {saveAll : Bool}
    (h : ∀ f ∈ tallyFields, m.written saveAll f = false) :
    storedTally n (w.saveWorker cfg m saveAll) = storedTally n w := by
  refine storedTally_congr fun f hf => ?_
  rw [World.workerField_saveWorker, if_neg]
  rintro ⟨-, hwritten⟩
  rw [h f hf] at hwritten
  cases hwritten

/-- A save writes each of the fields in which the object is not as the tally `t`. -/
structure Covers (m : WorkerModel) (saveAll : Bool) (t : Tally) : Prop where
  currentJobName : m.written saveAll .currentJobName = true ∨ t.currentJobName = m.currentJobName
  successfulJobCount : m.written saveAll .successfulJobCount = true ∨
    t.successfulJobCount = m.successfulJobCount
  failedJobCount : m.written saveAll .failedJobCount = true ∨ t.failedJobCount = m.failedJobCount
  completedJobs : m.written saveAll .completedJobs = true ∨ t.completedJobs = m.completedJobs

theorem Covers.of_saveAll (m : WorkerModel) (t : Tally) : Covers m true t := by
  have hwritten : ∀ f, m.written true f = true := fun _ => rfl
  exact ⟨.inl (hwritten _), .inl (hwritten _), .inl (hwritten _), .inl (hwritten _)⟩

theorem Covers.of_tally {m : WorkerModel} {t : Tally} (saveAll : Bool) (h : t = tally m) :
    Covers m saveAll t := by
  subst h
  exact ⟨.inr rfl, .inr rfl, .inr rfl, .inr rfl⟩

theorem storedTally_saveWorker (cfg : SchedulerConfiguration) {m : WorkerModel} {saveAll : Bool}
    (hname : n = m.name) (h : Covers m saveAll (storedTally n w)) :
    storedTally n (w.saveWorker cfg m saveAll) = tally m := by
  unfold storedTally tally
  simp only [World.workerField_saveWorker, hname, true_and, Tally.mk.injEq]
  subst hname
  refine ⟨?_, ?_, ?_, ?_⟩
  · rcases h.currentJobName with hwritten | hsame
    · rw [if_pos hwritten]
      rfl
    · split
      · rfl
      · exact hsame
  · rcases h.successfulJobCount with hwritten | hsame
    · rw [if_pos hwritten]
      rfl
    · split
      · rfl
      · exact hsame
  · rcases h.failedJobCount with hwritten | hsame
    · rw [if_pos hwritten]
      rfl
    · split
      · rfl
      · exact hsame
  · rcases h.completedJobs with hwritten | hsame
    · rw [if_pos hwritten]
      rfl
    · split
      · rfl
      · exact hsame

end Stored

/-! ## The worker reads the tally, and never changes it -/

/-- The tally of a copy. -/
def copy : Party → Tally
  | .parent w => tally w.model
  | .child w _ => tally w.model

/-- A plain save of the copy does not write the tally. -/
structure Clean (m : WorkerModel) : Prop where
  dirtyFields : ∀ f ∈ tallyFields, f ∉ m.dirtyFields
  saveAll : m.saveAll = false

theorem Clean.written {m : WorkerModel} (h : Clean m) : ∀ f ∈ tallyFields, m.written false f = false := by
  intro f hf
  simp [WorkerModel.written, h.saveAll, h.dirtyFields f hf]

theorem clean_saved (m : WorkerModel) : Clean m.saved := ⟨fun _ _ => Finset.notMem_empty _, rfl⟩

/-- A field that is not of the tally becomes dirty. -/
theorem Clean.insert {m m' : WorkerModel} (h : Clean m) {f : WorkerField} (hf : f ∉ tallyFields)
    (hdirty : m'.dirtyFields = insert f m.dirtyFields) (hsaveAll : m'.saveAll = m.saveAll) : Clean m' := by
  refine ⟨fun g hg hmem => ?_, hsaveAll.trans h.saveAll⟩
  rw [hdirty] at hmem
  rcases Finset.mem_insert.1 hmem with rfl | hmem
  · exact hf hg
  · exact h.dirtyFields g hg hmem

/-- The worker of the record `n`, with a clean copy. -/
def Own (n : WorkerName) : Party → Prop
  | .parent w => w.name = n ∧ Clean w.model
  | .child _ _ => False

section Reading

variable {env : Env} {n : WorkerName} {w : Worker}

/-- The worker with a copy that has the same tally. -/
structure SameTally (w w' : Worker) : Prop where
  name : w'.name = w.name
  tally : tally w'.model = tally w.model
  clean : Clean w'.model

theorem refresh_loads (hname : w.name = n) :
    (do let w ← w.refresh
        pure (Party.parent w) : Py Party).Loads (storedTally n) fun c o => Own n o ∧ copy o = c := by
  rw [Worker.refresh_bind_pure]
  refine ⟨_, _, _, rfl, fun _ => rfl, fun s => ?_⟩
  subst hname
  cases hfind : s.workers.find? w.name with
  | none => exact .inr ⟨_, rfl⟩
  | some h =>
      rw [Option.bind_some]
      cases hm : WorkerModel.deserialize h with
      | none => exact .inr ⟨_, rfl⟩
      | some m =>
          have hloaded := WorkerModel.loadedFrom hm
          refine .inl ⟨_, rfl, ⟨rfl, ⟨fun f _ => ?_, hloaded.saveAll⟩⟩, ?_⟩
          · rw [hloaded.dirtyFields]
            exact Finset.notMem_empty _
          · unfold copy tally storedTally World.workerField
            rw [hfind]
            simp only [Option.bind_some, hloaded.currentJobName, hloaded.successfulJobCount,
              hloaded.failedJobCount, hloaded.completedJobs]

theorem saveModel_spares (h : Clean w.model) :
    (w.saveModel env false).Spares (storedTally n) (SameTally w) := by
  have hwrite : (Prog.write (·.saveWorker env.config w.model false) : Py Unit).Spares (storedTally n)
      fun _ => True :=
    Prog.Steps.write fun _ => storedTally_saveWorker_of_clean env.config h.written
  exact hwrite.bind fun _ _ => ⟨rfl, rfl, clean_saved _⟩

theorem saveModel_sets :
    (w.saveModel env true).Sets (storedTally n) (tally w.model) (SameTally w) := by
  have hwrite : (Prog.write (·.saveWorker env.config w.model true) : Py Unit).Sets (storedTally n)
      (tally w.model) fun _ => True := by
    refine Prog.Steps.write fun v => ?_
    by_cases hname : n = w.model.name
    · exact .inr (storedTally_saveWorker env.config hname (.of_saveAll _ _))
    · refine .inl (storedTally_congr fun f _ => ?_)
      rw [World.workerField_saveWorker, if_neg fun h => hname h.1]
  exact hwrite.bind fun _ _ => ⟨rfl, rfl, clean_saved _⟩

theorem heartbeat_sets (timeout : Int) :
    (w.heartbeat env timeout).Sets (storedTally n) (tally w.model) (SameTally w) := by
  have hread : (utcnow : Py Int).Sets (storedTally n) (tally w.model) fun _ => True :=
    fun v => ⟨.inl rfl, trivial⟩
  refine hread.bind fun now _ => ?_
  have hsave : (Worker.saveModel env { w with model := w.model.setLastHeartbeat (some now) } true).Sets
      (storedTally n) (tally w.model) (SameTally w) :=
    (saveModel_sets (w := { w with model := w.model.setLastHeartbeat (some now) })).mono
      (fun _ _ _ h => h) fun w' h => ⟨h.name, h.tally, h.clean⟩
  refine hsave.bind fun w' hw' => ?_
  have hexpire : ∀ t : Int, (Prog.write fun s => s.expireWorker w'.name (s.now + secs t) :
      Py Unit).Sets (storedTally n) (tally w.model) fun _ => True :=
    fun t => Prog.Steps.write fun v => .inl (storedTally_expireWorker _ _)
  exact (hexpire _).bind fun _ _ => hw'

theorem setCurrentJobWorkingTime_spares (t : Int) (h : Clean w.model) :
    (w.setCurrentJobWorkingTime t).Spares (storedTally n) (SameTally w) := by
  have hwrite : (Prog.write (·.hsetWorker w.model.name .currentJobWorkingTime t) : Py Unit).Spares
      (storedTally n) fun _ => True :=
    Prog.Steps.write fun _ => storedTally_hsetWorker (f := .currentJobWorkingTime) (by decide) _ _
  exact hwrite.bind fun _ _ => ⟨rfl, rfl, h.insert (by decide) rfl rfl⟩

theorem monitoringTick_sets (job : JobModel) (h : Clean w.model) :
    (w.monitoringTick env job).Sets (storedTally n) (tally w.model) fun r => SameTally w r.1 := by
  have hrest : ∀ w' : Worker, SameTally w w' → (do
        let v ← w'.heartbeat env (w'.jobMonitoringInterval + 60)
        pure (v, decide (job.timeout ≠ -1 ∧ w'.model.currentJobWorkingTime > secs (job.timeout + 60))) :
        Py (Worker × Bool)).Sets (storedTally n) (tally w.model) fun r => SameTally w r.1 := by
    intro w' hw'
    have hheartbeat := @heartbeat_sets env n w' (w'.jobMonitoringInterval + 60)
    rw [hw'.tally] at hheartbeat
    exact hheartbeat.bind fun v hv => ⟨hv.name.trans hw'.name, hv.tally.trans hw'.tally, hv.clean⟩
  unfold Worker.monitoringTick
  cases job.startedAt with
  | none => exact hrest w ⟨rfl, rfl, h⟩
  | some startedAt =>
      have hread : (utcnow : Py Int).Sets (storedTally n) (tally w.model) fun _ => True :=
        fun v => ⟨.inl rfl, trivial⟩
      refine hread.bind fun now _ => ?_
      exact ((setCurrentJobWorkingTime_spares (now - startedAt) h).sets _).bind hrest

/-- The worker keeps its tally but for the loads. -/
theorem reader (env : Env) (n : WorkerName) :
    Copies.Reader (methods env) loads (storedTally n) copy (Own n) where
  sets o m ho hallowed hm := by
    cases o with
    | child w stage => exact ho.elim
    | parent w =>
        obtain ⟨hname, hclean⟩ := ho
        have hkeep : ∀ {p : Py Worker}, p.Sets (storedTally n) (tally w.model) (SameTally w) →
            (p >>= fun w => pure (Party.parent w)).Sets (storedTally n) (tally w.model)
              fun o => Own n o ∧ copy o = tally w.model := fun hp =>
          hp.bind fun w' hw' => ⟨⟨hw'.name.trans hname, hw'.clean⟩, hw'.tally⟩
        have hsave : ∀ {f : WorkerField} (m : WorkerModel), f ∉ tallyFields →
            m.dirtyFields = insert f w.model.dirtyFields → m.saveAll = w.model.saveAll →
            tally m = tally w.model →
            (Worker.saveModel env { w with model := m } false).Sets (storedTally n) (tally w.model)
              (SameTally w) := fun m hf hdirty hsaveAll htally =>
          Prog.Spares.sets ((saveModel_spares (w := { w with model := m })
            (hclean.insert hf hdirty hsaveAll)).mono (fun _ _ _ h => h) fun w' hw' =>
              (⟨hw'.name, hw'.tally.trans htally, hw'.clean⟩ : SameTally w w')) _
        cases m with
        | rememberProcess pid =>
            exact hkeep (hsave (f := .jobExecutionProcessPid) _ (by decide) rfl rfl rfl)
        | monitoringTick job =>
            exact (monitoringTick_sets job hclean).bind fun r hr => ⟨⟨hr.name.trans hname, hr.clean⟩, hr.tally⟩
        | heartbeat => exact hkeep (heartbeat_sets 0)
        | resetWorkingTime =>
            exact hkeep (hsave (f := .currentJobWorkingTime) _ (by decide) rfl rfl rfl)
        | refresh => cases hm
        | _ => exact (Bool.false_ne_true hallowed).elim
  load o m ho hallowed hm := by
    cases o with
    | child w stage => exact ho.elim
    | parent w =>
        cases m with
        | refresh => exact refresh_loads ho.1
        | _ => cases hm

end Reading

/-! ## What the process writes -/

/-- The tally that the process has brought about. -/
def Stage.tally (base : Tally) : Stage → Tally
  | .forked => base
  | .ready => base
  | .performing j => base.performing j
  | .handled o => base.counted o
  | .lost j => base.performing j

/-- The copy of the process, unless it has been spoilt. -/
structure CopyAt (n : WorkerName) (base : Tally) (w : Worker) (stage : Stage) : Prop where
  name : w.name = n
  model : w.model.name = n
  tally : tally w.model = stage.tally base
  clean : stage ≠ .forked → Clean w.model

/-- Between its methods the process knows what the record says. -/
structure ChildAt (n : WorkerName) (base : Tally) (w : Worker) (stage : Stage)
    (c : Config World (Role × Event)) : Prop where
  stored : storedTally n c.1 = stage.tally base
  copy : (∀ j, stage ≠ .lost j) → CopyAt n base w stage

/-- The worker leaves the tally alone; the process, when it handles an outcome, may count it. -/
def contract (n : WorkerName) (base : Tally) : Contract Role Party Method World Event where
  rely r c c' := r = .child → storedTally n c'.1 = storedTally n c.1
  guar r m c c' := (r = .parent → storedTally n c'.1 = storedTally n c.1) ∧
    (r = .child → m.handles = true →
      storedTally n c'.1 = storedTally n c.1 ∨ ∃ o, storedTally n c'.1 = base.counted o)
  idle r o c := r = .child → ∃ w stage, o = .child w stage ∧ ChildAt n base w stage c
  during r m o c := r = .child → m.handles = true → ∀ w j, o = .child w (.performing j) →
    storedTally n c.1 = base.performing j ∨ ∃ o, storedTally n c.1 = base.counted o
  refl _ _ _ := rfl
  trans _ _ _ _ h h' hr := (h' hr).trans (h hr)
  covers i j _ hij _ _ h hj := h.1 (by
    subst hj
    cases i with
    | parent => rfl
    | child => exact (hij rfl).elim)
  idle_stable _ _ _ _ h ho hr := by
    obtain ⟨w, stage, ho, hstored, hcopy⟩ := ho hr
    exact ⟨w, stage, ho, (h hr).trans hstored, hcopy⟩
  during_stable _ _ _ _ _ h hduring hr hm w j ho := by
    rw [h hr]
    exact hduring hr hm w j ho
  during_kept _ _ _ _ _ hguar hduring hr hm w j ho := by
    rcases hguar.2 hr hm with hsame | hcounted
    · rw [hsame]
      exact hduring hr hm w j ho
    · exact .inr hcounted

section Process

variable {env : Env} {n : WorkerName} {base t : Tally} {m : Method} {w : Worker}

abbrev side (n : WorkerName) (base : Tally) (m : Method) : Side World Event (Role × Event) :=
  (contract n base).side .child m

/-- The record has the tally `t`. -/
def Stored (n : WorkerName) (t : Tally) (c : Config World (Role × Event)) : Prop := storedTally n c.1 = t

theorem stored_stable : Stable (side n base m).rely (Stored n t) := fun _ _ h hc => (h rfl).trans hc

theorem guar_same {c c' : Config World (Role × Event)} (h : storedTally n c'.1 = storedTally n c.1) :
    (side n base m).guar c c' :=
  ⟨fun _ => h, fun _ _ => .inl h⟩

/-- A program that leaves the tally alone. -/
theorem spares_triple {α : Type} {p : Py α} {Q : α → Prop} (h : p.Spares (storedTally n) Q) :
    (side n base m).Triple (Stored n t) p (fun a c => Stored n t c ∧ Q a) fun _ _ => True :=
  h.triple stored_stable (fun _ _ _ => trivial) fun _ _ _ _ hc hstep =>
    ⟨guar_same hstep, hstep.trans hc⟩

/-- A save of the process stores its tally; when it handles an outcome, that must be one that is counted. -/
theorem saveModel_triple {saveAll : Bool} (hname : w.model.name = n) (h : Covers w.model saveAll t)
    (hguar : m.handles = true → t = tally w.model ∨ ∃ o, tally w.model = base.counted o) :
    (side n base m).Triple (Stored n t) (w.saveModel env saveAll)
      (fun w' c => Stored n (tally w.model) c ∧ w' = { w with model := w.model.saved }) fun _ _ => True := by
  refine Side.Triple.bind (Q := fun _ => Stored n (tally w.model)) ?_ fun _ => ?_
  · refine Side.Triple.write stored_stable stored_stable fun s _ hs => ?_
    have hs : storedTally n s = t := hs
    have hafter : storedTally n (s.saveWorker env.config w.model saveAll) = tally w.model :=
      storedTally_saveWorker env.config hname.symm (by rw [hs]; exact h)
    refine ⟨⟨fun hr => (nomatch hr), fun _ hm => ?_⟩, hafter⟩
    rcases hguar hm with hsame | ⟨o, ho⟩
    · exact .inl (hafter.trans (hsame.symm.trans hs.symm))
    · exact .inr ⟨o, hafter.trans ho⟩
  · exact Side.Triple.ret stored_stable fun c hc => ⟨hc, rfl⟩

/-- A heartbeat of the process saves all of its copy. -/
theorem heartbeat_triple (hname : w.model.name = n) (hm : m.handles = false) (timeout : Int) :
    (side n base m).Triple (Stored n t) (w.heartbeat env timeout)
      (fun w' c => Stored n (tally w.model) c ∧ SameTally w w' ∧ w'.model.name = n) fun _ _ => True := by
  have hno : m.handles = true → t = tally w.model ∨ ∃ o, tally w.model = base.counted o := by
    rw [hm]
    exact fun h => nomatch h
  have hread : (utcnow : Py Int).Spares (storedTally n) fun _ => True := fun _ => ⟨rfl, trivial⟩
  refine (spares_triple hread).bind fun now => ?_
  have hsave := @saveModel_triple env n base t m
    { w with model := w.model.setLastHeartbeat (some now) } true hname (.of_saveAll _ t) hno
  refine Side.Triple.bind (hsave.pre fun c hc => hc.1) fun w' => ?_
  have hexpire : ∀ d : Int, (Prog.write fun s => s.expireWorker w'.name (s.now + secs d) :
      Py Unit).Spares (storedTally n) fun _ => True :=
    fun d => Prog.Steps.write fun v => storedTally_expireWorker _ _
  refine Side.Triple.bind (Q := fun _ c => Stored n (tally w.model) c ∧
    w' = { w with model := (w.model.setLastHeartbeat (some now)).saved }) ?_ fun _ => ?_
  · intro c hc
    exact ((spares_triple (hexpire _)) c hc.1).mono (fun _ _ h => ⟨h.1, hc.2⟩) fun _ _ h => h
  · refine Side.Triple.ret (Side.Stable.and stored_stable (Side.Stable.const _)) fun c hc => ?_
    obtain ⟨hstored, rfl⟩ := hc
    exact ⟨hstored, ⟨rfl, rfl, clean_saved _⟩, hname⟩

/-- A method that handles no outcome need not count one. -/
theorem uncounted {P : Prop} (hm : m.handles = false) (h : m.handles = true) : P := by
  rw [hm] at h
  cases h

/-- The first lines of the process. -/
theorem startProcess_triple (hcopy : CopyAt n base w .forked) (hm : m.handles = false) :
    (side n base m).Triple (Stored n base) (w.startProcess env)
      (fun w' c => ChildAt n base w' .ready c) fun _ _ => True := by
  have htally : tally w.model = base := hcopy.tally
  refine Side.Triple.bind (saveModel_triple hcopy.model (.of_saveAll _ _) (uncounted hm)) fun w' => ?_
  intro c hc
  obtain ⟨hstored, rfl⟩ := hc
  refine ((saveModel_triple (w := { w with model := w.model.saved.setJobExecutionProcessPid w.pid })
    hcopy.model (.of_tally false rfl) (uncounted hm)) c hstored).mono ?_ fun _ _ h => h
  rintro w' c ⟨hstored, rfl⟩
  exact ⟨hstored.trans htally, fun _ => ⟨hcopy.name, hcopy.model, htally, fun _ => clean_saved _⟩⟩

/-- The job is entered into the record. -/
theorem workerBeforeExecution_triple (job : JobModel) (hcopy : CopyAt n base w .ready)
    (hm : m.handles = false) : (side n base m).Triple (Stored n base) (w.workerBeforeExecution env job)
      (fun w' c => ChildAt n base w' (.performing job.name) c) fun _ _ => True := by
  have hrest : ∀ v : Worker, v.name = n → v.model.name = n → tally v.model = base.performing job.name →
      (side n base m).Triple (Stored n base) (do
        let v ← v.heartbeat env (v.heartbeatTtl job)
        v.saveModel env false) (fun w' c => ChildAt n base w' (.performing job.name) c) fun _ _ => True := by
    intro v hname hmodel htally
    refine Side.Triple.bind (heartbeat_triple hmodel hm _) fun w' => ?_
    rintro c ⟨hstored, hsame, hmodel'⟩
    refine ((saveModel_triple (w := w') hmodel' (.of_tally false hsame.tally.symm) (uncounted hm)) c
      hstored).mono ?_ fun _ _ h => h
    rintro v' c ⟨hstored, rfl⟩
    have hv : tally w'.model = base.performing job.name := hsame.tally.trans htally
    exact ⟨hstored.trans hv, fun _ => ⟨hsame.name.trans hname, hmodel', hv, fun _ => clean_saved _⟩⟩
  have htally : tally w.model = base := hcopy.tally
  refine hrest { w with model := ((w.model.setCurrentJobName (some job.name)).setCurrentJobWorkingTime
    0).setJobExecutionProcessPid w.pid } hcopy.name hcopy.model ?_
  rw [← htally]
  rfl

/-- Adding to the working time changes no other field. -/
theorem addWorkingTime_eq (m : WorkerModel) (started ended : Option Int) :
    tally (m.addWorkingTime started ended) = tally m ∧ (m.addWorkingTime started ended).name = m.name ∧
      m.dirtyFields ⊆ (m.addWorkingTime started ended).dirtyFields := by
  unfold WorkerModel.addWorkingTime
  split
  · exact ⟨rfl, rfl, Finset.subset_insert _ _⟩
  · exact ⟨rfl, rfl, Finset.Subset.refl _⟩

theorem written_of_mem {x : WorkerModel} {f : WorkerField} (h : f ∈ x.dirtyFields) :
    x.written false f = true := by
  simp [WorkerModel.written, h]

/-- Steps that leave the records of workers alone leave the tally alone. -/
theorem leavesWorkers (n : WorkerName) :
    LeavesWorkers fun s s' _ => storedTally n s' = storedTally n s :=
  ⟨fun _ _ _ h => storedTally_of_workers h⟩

/-- Storing the outcome `o` in the tally. -/
theorem count_triple {x : WorkerModel} {j : JobName} {o : Outcome} (hname : w.name = n) (hmodel : x.name = n)
    (htally : tally x = base.counted o) (hcovers : Covers x false (base.performing j)) :
    (side n base m).Triple (Stored n (base.performing j)) (Worker.saveModel env { w with model := x } false)
      (fun w' c => ChildAt n base w' (.handled o) c) fun _ _ => True := by
  intro c hc
  refine ((saveModel_triple (w := { w with model := x }) hmodel hcovers fun _ => .inr ⟨o, htally⟩) c
    hc).mono ?_ fun _ _ h => h
  rintro w' c ⟨hstored, rfl⟩
  exact ⟨hstored.trans htally, fun _ => ⟨hname, hmodel, htally, fun _ => clean_saved _⟩⟩

/-- The counters of a process that performs a job are those of the fork. -/
theorem counters_eq {x : WorkerModel} {j : JobName} (h : tally x = base.performing j) :
    x.successfulJobCount = base.successfulJobCount ∧ x.failedJobCount = base.failedJobCount ∧
      x.completedJobs = base.completedJobs :=
  ⟨congrArg Tally.successfulJobCount h, congrArg Tally.failedJobCount h, congrArg Tally.completedJobs h⟩

theorem countSuccess_eq {x : WorkerModel} {j : JobName} (job : JobModel)
    (h : tally x = base.performing j) : tally (Worker.countSuccess x job) = base.counted .succeeded ∧
      (Worker.countSuccess x job).name = x.name ∧ Covers (Worker.countSuccess x job) false (base.performing j) := by
  obtain ⟨htally, hname, hdirty⟩ := addWorkingTime_eq
    ((x.setCurrentJobName none).addSuccessfulJob.addCompletedJob) job.startedAt job.endedAt
  obtain ⟨hsuccessful, hfailed, hcompleted⟩ := counters_eq h
  have hcounted : tally (Worker.countSuccess x job) = base.counted .succeeded := by
    refine htally.trans ?_
    simp only [tally, WorkerModel.setCurrentJobName, WorkerModel.addSuccessfulJob,
      WorkerModel.addCompletedJob, Tally.counted, hsuccessful, hfailed, hcompleted]
  have hwritten : ∀ f ∈ [WorkerField.currentJobName, .successfulJobCount, .completedJobs],
      (Worker.countSuccess x job).written false f = true := by
    intro f hf
    refine written_of_mem (hdirty ?_)
    simp only [List.mem_cons, List.not_mem_nil, or_false] at hf
    rcases hf with rfl | rfl | rfl <;>
      simp [WorkerModel.setCurrentJobName, WorkerModel.addSuccessfulJob, WorkerModel.addCompletedJob]
  refine ⟨hcounted, hname, .inl (hwritten _ (by simp)), .inl (hwritten _ (by simp)), .inr ?_,
    .inl (hwritten _ (by simp))⟩
  exact (congrArg Tally.failedJobCount hcounted).symm

theorem countFailure_eq {x : WorkerModel} {j : JobName} (job : JobModel)
    (h : tally x = base.performing j) :
    tally (Worker.countFailure (x.setCurrentJobName none) job) = base.counted (failureOutcome job.status) ∧
      (Worker.countFailure (x.setCurrentJobName none) job).name = x.name ∧
      Covers (Worker.countFailure (x.setCurrentJobName none) job) false (base.performing j) := by
  obtain ⟨hsuccessful, hfailed, hcompleted⟩ := counters_eq h
  unfold Worker.countFailure failureOutcome
  dsimp only
  by_cases hstatus : job.status = .failed
  · rw [if_pos hstatus, if_pos hstatus]
    obtain ⟨htally, hname, hdirty⟩ := addWorkingTime_eq
      (((x.setCurrentJobName none).setCurrentJobWorkingTime 0).addFailedJob.addCompletedJob)
      job.startedAt job.endedAt
    have hcounted := htally.trans (show _ = base.counted .failed by
      simp only [tally, WorkerModel.setCurrentJobName, WorkerModel.setCurrentJobWorkingTime,
        WorkerModel.addFailedJob, WorkerModel.addCompletedJob, Tally.counted, hsuccessful, hfailed, hcompleted])
    refine ⟨hcounted, hname, ?_, .inr ?_, ?_, ?_⟩
    · exact .inl (written_of_mem (hdirty (by simp [WorkerModel.setCurrentJobName,
        WorkerModel.setCurrentJobWorkingTime, WorkerModel.addFailedJob, WorkerModel.addCompletedJob])))
    · exact (congrArg Tally.successfulJobCount hcounted).symm
    · exact .inl (written_of_mem (hdirty (by simp [WorkerModel.setCurrentJobName,
        WorkerModel.setCurrentJobWorkingTime, WorkerModel.addFailedJob, WorkerModel.addCompletedJob])))
    · exact .inl (written_of_mem (hdirty (by simp [WorkerModel.setCurrentJobName,
        WorkerModel.setCurrentJobWorkingTime, WorkerModel.addFailedJob, WorkerModel.addCompletedJob])))
  · rw [if_neg hstatus, if_neg hstatus]
    obtain ⟨htally, hname, hdirty⟩ := addWorkingTime_eq
      ((x.setCurrentJobName none).setCurrentJobWorkingTime 0) job.startedAt job.endedAt
    have hcounted := htally.trans (show _ = base.counted .stopped by
      simp only [tally, WorkerModel.setCurrentJobName, WorkerModel.setCurrentJobWorkingTime, Tally.counted,
        hsuccessful, hfailed, hcompleted])
    refine ⟨hcounted, hname, ?_, .inr ?_, .inr ?_, .inr ?_⟩
    · exact .inl (written_of_mem (hdirty (by simp [WorkerModel.setCurrentJobName,
        WorkerModel.setCurrentJobWorkingTime])))
    · exact (congrArg Tally.successfulJobCount hcounted).symm
    · exact (congrArg Tally.failedJobCount hcounted).symm
    · exact (congrArg Tally.completedJobs hcounted).symm

theorem finishSuccess_triple (job : JobModel) {j : JobName} (hcopy : CopyAt n base w (.performing j)) :
    (side n base m).Triple (Stored n (base.performing j)) (w.finishSuccess env job)
      (fun r c => ChildAt n base r.1 (.handled .succeeded) c) fun _ _ => True := by
  obtain ⟨htally, hname, hcovers⟩ := countSuccess_eq job hcopy.tally
  refine Side.Triple.bind (count_triple hcopy.name (hname.trans hcopy.model) htally hcovers) fun w' => ?_
  intro c hc
  have hexpire := (leavesWorkers n).expire job job.successTtl
  refine Side.Triple.bind (Q := fun _ c => ChildAt n base w' (.handled .succeeded) c) ?_ (fun job' => ?_) c hc
  · intro c hc
    exact (spares_triple hexpire c hc.stored).mono (fun _ _ h => ⟨h.1, hc.copy⟩) fun _ _ h => h
  · exact Side.Triple.ret (fun _ _ h hc => ⟨(h rfl).trans hc.stored, hc.copy⟩) fun c hc => hc

theorem handleJobFailure_triple (job : JobModel) (q : Queue) (s : String) {j : JobName}
    (hcopy : CopyAt n base w (.performing j)) :
    (side n base m).Triple (Stored n (base.performing j)) (w.handleJobFailure env job q s)
      (fun r c => ChildAt n base r.1 (afterFailure j r.2) c) fun _ _ => True := by
  have hread : w.storedStoppedJobName.Spares (storedTally n) fun _ => True := fun _ => ⟨rfl, trivial⟩
  refine Side.Triple.bind (spares_triple hread) fun stopped => ?_
  have hstore := @LeavesWorkers.jobHandleFailure env _ (leavesWorkers n) q
    (if stopped = some job.name then .stopped else .failed) job s
  refine Side.Triple.bind (Q := fun _ => Stored n (base.performing j)) ?_ fun r => ?_
  · intro c hc
    exact (spares_triple hstore c hc.1).mono (fun _ _ h => h.1) fun _ _ h => h
  · obtain ⟨job', x | u⟩ := r
    · refine Side.Triple.ret stored_stable fun c hc => ⟨hc, fun hnot => ?_⟩
      exact absurd rfl (hnot j)
    · obtain ⟨htally, hname, hcovers⟩ := countFailure_eq job' hcopy.tally
      refine Side.Triple.bind (count_triple hcopy.name (hname.trans hcopy.model) htally hcovers) fun w' => ?_
      exact Side.Triple.ret (fun _ _ h hc => ⟨(h rfl).trans hc.stored, hc.copy⟩) fun c hc => hc

/-- A method that ends with a process in some stage. -/
theorem ends_at {α : Type} {p : Py α} {P : Config World (Role × Event) → Prop} {f : α → Worker}
    {stage : α → Stage}
    (h : (side n base m).Triple P p (fun a c => ChildAt n base (f a) (stage a) c) fun _ _ => True) :
    (side n base m).Triple P (p >>= fun a => pure (Party.child (f a) (stage a)))
      ((contract n base).idle .child) fun _ _ => True :=
  h.bind fun a => Side.Triple.ret (fun _ _ hr hc => ⟨(hr rfl).trans hc.stored, hc.copy⟩)
    fun _ hc _ => ⟨f a, stage a, rfl, hc⟩

theorem child_keeps {o : Party} {c : Config World (Role × Event)} (hallowed : allowed o m = true)
    (hidle : (contract n base).idle .child o c) :
    (contract n base).during .child m o c ∧
      (contract n base).Keeps .child m (Method.program env m o) c := by
  obtain ⟨w, stage, rfl, hstored, hcopy⟩ := hidle rfl
  refine ⟨fun _ hm w' j ho => ?_, ?_⟩
  · cases ho
    exact .inl hstored
  · cases stage with
    | forked =>
        cases m with
        | startProcess => exact ends_at (f := id) (startProcess_triple (hcopy (by simp)) rfl) c hstored
        | _ => exact (Bool.false_ne_true hallowed).elim
    | ready =>
        cases m with
        | workerBeforeExecution job =>
            exact ends_at (f := id) (workerBeforeExecution_triple job (hcopy (by simp)) rfl) c hstored
        | _ => exact (Bool.false_ne_true hallowed).elim
    | performing j =>
        cases m with
        | finishSuccess job =>
            exact ends_at (f := Prod.fst) (finishSuccess_triple job (hcopy (by simp))) c hstored
        | handleJobFailure job queue =>
            obtain rfl : job.name = j := of_decide_eq_true hallowed
            exact ends_at (f := Prod.fst) (handleJobFailure_triple job queue "traceback" (hcopy (by simp)))
              c hstored
        | _ => exact (Bool.false_ne_true hallowed).elim
    | handled o => cases m <;> exact (Bool.false_ne_true hallowed).elim
    | lost j => cases m <;> exact (Bool.false_ne_true hallowed).elim

end Process

/-! ## Runs -/

/-- The invariant. -/
structure Inv (n : WorkerName) (base : Tally) (S : System) : Prop where
  agrees : S.copies.Agrees (storedTally n) loads copy (Own n) .parent
  child : S.copies.objects.SoundAt (contract n base) .child
  synced : S.refreshed = true → S.exited = true ∧ S.copies.seen .parent = some (storedTally n S.state)

section Steps

variable {env : Env} {n : WorkerName} {base : Tally} {S S' : System}

/-- The process hears nothing of what leaves the tally alone. -/
theorem child_of_others (h : S.copies.objects.SoundAt (contract n base) .child)
    (hobject : S'.copies.objects.object .child = S.copies.objects.object .child)
    (hdoing : S'.copies.objects.doing .child = S.copies.objects.doing .child)
    (htally : storedTally n S'.state = storedTally n S.state) :
    S'.copies.objects.SoundAt (contract n base) .child := by
  have hrely : (contract n base).rely .child S.copies.objects.config S'.copies.objects.config :=
    fun _ => htally
  refine h.of_rely hobject hdoing (fun hnone => ?_) fun _ _ _ _ => hrely
  exact (contract n base).idle_stable _ _ _ _ hrely (h.of_none hnone)

/-- Something outside that leaves the tally alone. -/
theorem Inv.outside (h : Inv n base S) {f : World → World}
    (hf : storedTally n (f S.state) = storedTally n S.state) :
    Inv n base { S with copies := S.copies.outside f } where
  agrees := h.agrees.of_others rfl rfl rfl
  child := child_of_others h.child rfl rfl hf
  synced hr := ⟨(h.synced hr).1, (h.synced hr).2.trans (congrArg some hf.symm)⟩

theorem Inv.call (h : Inv n base S) (r : Role) (m : Method) :
    Inv n base (S.step env n (.call r m)) := by
  show Inv n base (if S.blocked r (some m) then S else _)
  split
  · exact h
  · have hconfig : (S.copies.objects.call (methods env) r m).config = S.copies.objects.config := by
      rcases S.copies.objects.call_cases (methods env) r m with ⟨hsame, -⟩ | ⟨-, -, hcall⟩
      · rw [hsame]
      · rw [hcall]
        rfl
    have hstate : (S.copies.objects.call (methods env) r m).state = S.copies.objects.state :=
      congrArg Prod.fst hconfig
    refine ⟨?_, ?_, fun hr => ⟨(h.synced hr).1, (h.synced hr).2.trans ?_⟩⟩
    · cases r with
      | parent => exact h.agrees.call (reader env n)
      | child => exact h.agrees.call_other (by decide)
    · cases r with
      | parent =>
          obtain ⟨hobject, hdoing, -⟩ := @Objects.call_of_ne _ _ _ _ _ _ S.copies.objects
            .parent m _ (methods env) .child (by decide)
          exact child_of_others h.child hobject hdoing (congrArg (storedTally n) hstate)
      | child => exact h.child.call fun _ hallowed hidle => child_keeps hallowed hidle
    · exact congrArg (some ∘ storedTally n) hstate.symm

theorem Inv.go_parent (h : Inv n base S) (hfresh : S.copies.Fresh (storedTally n) .parent) :
    Inv n base (S.step env n (.go .parent)) := by
  have hblocked : S.blocked .parent none = false := by simp [System.blocked]
  obtain ⟨hagrees, hsame⟩ := h.agrees.go hfresh
  obtain ⟨hobject, hdoing⟩ := @Objects.go_of_ne _ _ _ _ _ _ S.copies.objects .parent _ .child (by decide)
  show Inv n base (if S.blocked .parent none then S else _)
  rw [hblocked, if_neg Bool.false_ne_true]
  refine ⟨hagrees, child_of_others h.child hobject hdoing hsame, fun hr => ?_⟩
  have hseen : (S.copies.go (storedTally n) loads .parent).seen .parent
      = if S.copies.loading loads .parent then some (storedTally n S.state) else S.copies.seen .parent :=
    Copies.seen_go_self
  simp only [decide_true, Bool.true_and, Bool.or_eq_true, Bool.and_eq_true] at hr
  rcases hr with hr | ⟨hexited, hloading⟩
  · obtain ⟨hexited, hsynced⟩ := h.synced hr
    refine ⟨hexited, hseen.trans ?_⟩
    split
    · exact congrArg some hsame.symm
    · exact hsynced.trans (congrArg some hsame.symm)
  · rw [if_pos hloading] at hseen
    exact ⟨hexited, hseen.trans (congrArg some hsame.symm)⟩

theorem Inv.go_child (h : Inv n base S) : Inv n base (S.step env n (.go .child)) := by
  show Inv n base (if S.exited then S else _)
  split
  · exact h
  · rename_i hexited
    refine ⟨h.agrees.go_other (by decide), h.child.go.1, fun hr => ?_⟩
    simp only [reduceCtorEq, decide_false, Bool.false_and, Bool.or_false] at hr
    exact absurd (h.synced hr).1 hexited

theorem inv_step (h : Inv n base S) (m : Move n) (hm : S.Undisturbed m) :
    Inv n base (S.step env n m) := by
  cases m with
  | call r m => exact h.call r m
  | go r =>
      cases r with
      | parent => exact h.go_parent hm
      | child => exact h.go_child
  | exit => exact ⟨h.agrees, h.child, fun hr => ⟨rfl, (h.synced hr).2⟩⟩
  | pass d => exact h.outside (storedTally_advance hm)
  | elsewhere f hf => exact h.outside (hf S.state)

theorem inv_start {w : Worker} (hname : w.name = n) (hmodel : w.model.name = n) (hclean : Clean w.model)
    (childPid : Int) {s : World} (hstored : storedTally n s = tally w.model) :
    Inv n (tally w.model) (System.start w childPid s) where
  agrees := ⟨⟨hname, hclean⟩, fun c hc => Option.some_inj.1 hc⟩
  child := fun _ => ⟨_, .forked, rfl, hstored, fun _ => ⟨hname, hmodel, rfl, fun h => absurd rfl h⟩⟩
  synced hr := by cases hr

theorem Inv.recorded (h : Inv n base S) : S.Recorded n base where
  performing w j hdoing hobject := by
    obtain ⟨w', stage, ho, hat⟩ := h.child.of_none hdoing rfl
    rw [hobject] at ho
    cases ho
    exact hat.stored
  handling m p w j hdoing hraised hm hobject :=
    (h.child.of_some hdoing hraised).1 rfl hm w j hobject
  handled w o hdoing hobject := by
    obtain ⟨w', stage, ho, hat⟩ := h.child.of_none hdoing rfl
    rw [hobject] at ho
    cases ho
    exact hat.stored
  refreshed w hr hdoing hobject := by
    have hcopy := (h.agrees.of_none hdoing).2 _ (h.synced hr).2
    rw [hobject] at hcopy
    exact hcopy

end Steps

/-- A worker whose copy is saved forks. In every run in which each save of its whole copy finds the tally of
the record as the copy has it, and in which the record does not expire: while the process performs the job
the record says so, until the outcome is counted; the counters are then those of the fork and the outcome's;
and a worker that has refreshed after the end of the process has the same. -/
theorem process_recorded (env : Env) (n : WorkerName) (w : Worker) (childPid : Int) (s : World)
    (l : List (Move n)) (hname : w.name = n) (hmodel : w.model.name = n) (hclean : Clean w.model)
    (hstored : storedTally n s = tally w.model)
    (hl : Run.Meets (System.step env n) System.Undisturbed (System.start w childPid s) l) :
    Run.Along (System.step env n) (System.Recorded n (tally w.model)) (System.start w childPid s) l :=
  (Run.along_of_step (P := Inv n (tally w.model)) (fun _ m h hm => inv_step h m hm)
    (inv_start hname hmodel hclean childPid hstored) hl).mono fun _ h => h.recorded

/-- A command to stop the job that the record names is not ignored. -/
theorem stop_not_ignored {env : Env} {n : WorkerName} {pid : Int} {j : JobName} {w : World} {m : WorkerModel}
    (hm : (w.workers.find? n).bind WorkerModel.deserialize = some m)
    (hjob : (JobModel.fetch env w j).isSome = true) (hprocess : m.jobExecutionProcessPid ≠ 0)
    (hpid : pid ≠ m.jobExecutionProcessPid) (hj : (storedTally n w).currentJobName = some j) :
    ((StopJobCommand.processCommand env n pid j).run w).val = .ok true := by
  obtain ⟨h, hfind, hload⟩ := Option.bind_eq_some_iff.1 hm
  have hname : m.currentJobName = some j := by
    rw [(WorkerModel.loadedFrom hload).currentJobName, ← hj]
    unfold storedTally World.workerField
    rw [hfind, Option.bind_some]
  obtain ⟨job, hjob⟩ := Option.isSome_iff_exists.1 hjob
  simp [StopJobCommand.processCommand, WorkerModel.get, JobModel.get, Prog.run_bind, hm, hjob, hprocess, hpid,
    hname]

/-! ## A sample -/

/-- The record of the worker `w` at the broker, and the worker with a saved copy. -/
def sampleWorld : World := (World.init 0).saveWorker {} (Sample.worker "w").model true

def sampleWorker : Worker := { Sample.worker "w" with model := (Sample.worker "w").model.saved }

def sampleStart : System := System.start sampleWorker 2 sampleWorld

/-- A party begins a method and takes `k` steps of it. -/
def runs (r : Role) (m : Method) (k : Nat) : List (Move "w") := .call r m :: List.replicate k (.go r)

/-- The process begins the job `j`. -/
def sampleBegin : List (Move "w") :=
  runs .child .startProcess 3 ++ runs .child (.workerBeforeExecution (Sample.job "j")) 5

/-- The process is performing a job. -/
def System.performingNow (S : System) : Option JobName :=
  match S.copies.objects.doing .child, S.copies.objects.object .child with
  | none, .child _ (.performing j) => some j
  | _, _ => none

/-- The process may do what it likes. -/
theorem meets_child (S : System) (m : Method) (k : Nat) :
    Run.Meets (System.step Sample.env "w") System.Undisturbed S (runs .child m k) := by
  refine ⟨trivial, ?_⟩
  generalize S.step Sample.env "w" (.call .child m) = S'
  induction k generalizing S' with
  | zero => trivial
  | succ k ih => exact ⟨trivial, ih _⟩

theorem sample_process_recorded : Run.Along (System.step Sample.env "w")
    (System.Recorded "w" (tally sampleWorker.model)) sampleStart
      (runs .parent .heartbeat 4 ++ (sampleBegin ++ (runs .child (.finishSuccess (Sample.job "j")) 3
        ++ .exit :: runs .parent .refresh 2))) := by
  refine process_recorded Sample.env "w" sampleWorker 2 sampleWorld _ rfl rfl (clean_saved _) (by decide) ?_
  refine Run.meets_append.2 ⟨⟨trivial, fun _ => rfl, fun _ => rfl, fun _ => rfl, fun _ => rfl, trivial⟩, ?_⟩
  refine Run.meets_append.2 ⟨Run.meets_append.2 ⟨meets_child _ _ _, meets_child _ _ _⟩, ?_⟩
  refine Run.meets_append.2 ⟨meets_child _ _ _, trivial, trivial, ?_, ?_, trivial⟩
  · rintro ⟨m, f, e, q, hdoing, s, hne⟩
    cases hdoing
    exact (hne rfl).elim
  · rintro ⟨m, f, e, q, hdoing, s, hne⟩
    cases hdoing

/-- The worker sends a heartbeat while the process performs the job. -/
def sampleTick : System :=
  Run.last (System.step Sample.env "w") sampleStart (sampleBegin ++ runs .parent .heartbeat 4)

/-- It sends it after the process has counted its success, and then refreshes. -/
def sampleLateTick : System :=
  Run.last (System.step Sample.env "w") sampleStart (sampleBegin ++
    runs .child (.finishSuccess (Sample.job "j")) 3 ++ runs .parent .heartbeat 4 ++
      .exit :: runs .parent .refresh 2)

/-- After a heartbeat the record does not say which job the process performs, or has lost what was
counted. -/
theorem heartbeat_undoes :
    (sampleTick.performingNow = some "j" ∧ (storedTally "w" sampleTick.state).currentJobName = none) ∧
      sampleLateTick.refreshed = true ∧ storedTally "w" sampleLateTick.state = ⟨none, 0, 0, 0⟩ := by
  decide +kernel

end DailyScheduler.Forking
