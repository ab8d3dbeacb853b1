import DailyScheduler.Concurrency.Shutdown
import DailyScheduler.Execution.Workers
import DailyScheduler.Lib.Weakest

set_option autoImplicit false

/-! # The loop that is shut down

`Concurrency/Shutdown` keeps of the worker and its record what a request to stop depends on, and cuts the
calls of its loop into the steps between which a signal may come. The calls themselves are those of
`Model/WorkerLoop`: what an uninterrupted pass with a job makes of the state of a worker, in its object and in
its record, is what the steps of a `Process` make of it (`wp_workPass`).
-/

namespace DailyScheduler.Shutdown

open AtomicProg Process

/-! ## Steps without a signal -/

/-- Steps of the worker alone lead from `S` to `S'`. -/
def Goes (S S' : Process) : Prop := ∃ l, (∀ a ∈ l, Label.isGo a = true) ∧ Run.last step S l = S'

/-- The worker runs and is about to make the call at `p`. -/
structure At (p : Point) (S : Process) : Prop where
  point : S.point = p
  pending : S.pending = none
  status : S.status = .running

section Steps

variable {S S' S'' : Process} {p : Point}

theorem Goes.trans (h : Goes S S') (h' : Goes S' S'') : Goes S S'' := by
  obtain ⟨l, hl, rfl⟩ := h
  obtain ⟨l', hl', rfl⟩ := h'
  refine ⟨l ++ l', fun a ha => ?_, List.foldl_append⟩
  exact (List.mem_append.1 ha).elim (hl a) (hl' a)

theorem goes_go (h : S.status = .running) (ok : Bool) : Goes S (S.go ok) := by
  refine ⟨[.go ok], fun a ha => ?_, if_pos h⟩
  rw [List.mem_singleton.1 ha]
  rfl

theorem goes_refresh (hat : At p S) (hcall : p.call = .refresh) :
    Goes S ({ S with model := ⟨S.record, false, false⟩ }.advance p.next) := by
  obtain ⟨rfl, hpending, hstatus⟩ := hat
  have hread : S.go true = { S with pending := some (.loaded S.record) } := by
    simp only [Process.go, hcall, hpending]
  have hload : (S.go true).go true = { S with model := ⟨S.record, false, false⟩ }.advance S.point.next := by
    rw [hread]
    simp only [Process.go, hcall]
    rfl
  rw [← hload]
  refine (goes_go hstatus true).trans (goes_go ?_ true)
  rw [hread]
  exact hstatus

theorem goes_setState (hat : At p S) {s : WorkerStatus} (hcall : p.call = .setState s) :
    Goes S ({ S with
      model := { S.model with state := s, stateDirty := true }
      record := { S.record with state := s } }.advance p.next) := by
  obtain ⟨rfl, hpending, hstatus⟩ := hat
  have hassign : S.go true =
      { S with model := { S.model with state := s, stateDirty := true }, pending := some .assigned } := by
    simp only [Process.go, hcall, hpending]
  have hset : (S.go true).go true = { S with
      model := { S.model with state := s, stateDirty := true }
      record := { S.record with state := s } }.advance S.point.next := by
    rw [hassign]
    simp only [Process.go, hcall]
    rfl
  rw [← hset]
  refine (goes_go hstatus true).trans (goes_go ?_ true)
  rw [hassign]
  exact hstatus

theorem goes_save (hat : At p S) {b : Bool} (hcall : p.call = .save b) :
    Goes S ({ S with
      model := { S.model with stateDirty := false, shutdownDirty := false }
      record := (S.model.mapping b S.model.toFields).store S.record }.advance p.next) := by
  obtain ⟨rfl, hpending, hstatus⟩ := hat
  have hserialize : S.go true = { S with pending := some (.serialized S.model.toFields) } := by
    simp only [Process.go, hcall, hpending]
  have hcollect : (S.go true).go true =
      { S with pending := some (.collected (S.model.mapping b S.model.toFields)) } := by
    rw [hserialize]
    simp only [Process.go, hcall]
  have hwrite : ((S.go true).go true).go true = { S with
      record := (S.model.mapping b S.model.toFields).store S.record, pending := some .written } := by
    rw [hcollect]
    simp only [Process.go, hcall]
  have hsave : (((S.go true).go true).go true).go true = { S with
      model := { S.model with stateDirty := false, shutdownDirty := false }
      record := (S.model.mapping b S.model.toFields).store S.record }.advance S.point.next := by
    rw [hwrite]
    simp only [Process.go, hcall]
    rfl
  rw [← hsave]
  refine (goes_go hstatus true).trans ((goes_go ?_ true).trans ((goes_go ?_ true).trans (goes_go ?_ true)))
  · rw [hserialize]
    exact hstatus
  · rw [hcollect]
    exact hstatus
  · rw [hwrite]
    exact hstatus

/-- The function of the job is called, and returns or raises. -/
theorem goes_perform (hat : At .perform S) (ok : Bool) :
    Goes S (((S.emit .began).emit .ended).advance (if ok then .store else .storeFailed)) := by
  obtain ⟨hpoint, hpending, hstatus⟩ := hat
  have hbegin : S.go ok = { S.emit .began with pending := some .performing } := by
    simp only [Process.go, hpoint, hpending, Point.call]
  have hend : (S.go ok).go ok =
      ((S.emit .began).emit .ended).advance (if ok then .store else .storeFailed) := by
    rw [hbegin]
    simp only [Process.go, Process.emit, hpoint, Point.call]
    rfl
  rw [← hend]
  refine (goes_go hstatus ok).trans (goes_go ?_ ok)
  rw [hbegin]
  exact hstatus

end Steps

/-! ## The worker of the model -/

/-- The name and the state in the record of the worker. -/
def record (n : WorkerName) (s : World) : Option WorkerName × Option WorkerStatus :=
  (s.workerField n .name, s.workerField n .state)

/-- The worker `n`: its object and its record have the states that `S` has, and the object is as dirty. -/
structure Shows (n : WorkerName) (S : Process) (w : Worker) (s : World) : Prop where
  worker : w.name = n
  name : w.model.name = n
  state : w.model.state = S.model.state
  dirty : .state ∈ w.model.dirtyFields ↔ S.model.stateDirty = true
  saveAll : w.model.saveAll = false
  stored : record n s = (some n, some S.record.state)

/-- Steps of the worker alone lead from `S` to the call at `p`, and what there is then shows in `w` and `s`. -/
def Comes (n : WorkerName) (S : Process) (p : Point) (w : Worker) (s : World) : Prop :=
  ∃ S', Goes S S' ∧ At p S' ∧ Shows n S' w s

section Calls

variable {n : WorkerName} {S : Process} {p q : Point} {env : Env} {w : Worker} {s s' : World}

theorem Goes.comes {S' : Process} (h : Goes S S') (hcomes : Comes n S' p w s) : Comes n S p w s := by
  obtain ⟨S'', hgoes, hat, hshows⟩ := hcomes
  exact ⟨S'', h.trans hgoes, hat, hshows⟩

/-- One call after the other. -/
theorem Comes.next {α : Type} {g : α → Worker} {c : Py α} {X : PyError → World → Prop}
    (h : Comes n S p w s)
    (hc : ∀ S', At p S' → Shows n S' w s → c.wp (fun r => Comes n S' q (g r)) X s) :
    c.wp (fun r => Comes n S q (g r)) X s := by
  obtain ⟨S', hgoes, hat, hshows⟩ := h
  exact Prog.wp_mono (hc S' hat hshows) (fun r s' => hgoes.comes) fun _ _ => id

theorem Shows.of_record (h : Shows n S w s) (hs : record n s' = record n s) : Shows n S w s' :=
  { h with stored := hs.trans h.stored }

/-- What the setters of the other fields leave. -/
structure Keeps (m m' : WorkerModel) : Prop where
  name : m'.name = m.name
  state : m'.state = m.state
  dirty : .state ∈ m'.dirtyFields ↔ .state ∈ m.dirtyFields
  saveAll : m'.saveAll = m.saveAll

theorem keeps_setLastHeartbeat (m : WorkerModel) (t : Option Int) : Keeps m (m.setLastHeartbeat t) :=
  ⟨rfl, rfl, by simp [WorkerModel.setLastHeartbeat], rfl⟩

theorem Shows.of_keeps (h : Shows n S w s) {m : WorkerModel} (hm : Keeps w.model m) :
    Shows n S { w with model := m } s where
  worker := h.worker
  name := hm.name.trans h.name
  state := hm.state.trans h.state
  dirty := hm.dirty.trans h.dirty
  saveAll := hm.saveAll.trans h.saveAll
  stored := h.stored

/-- What is loaded is what is stored. -/
theorem wp_refresh (hshows : Shows n S w s) :
    w.refresh.wp (fun w' s' => Shows n { S with model := ⟨S.record, false, false⟩ } w' s')
      (fun _ _ => False) s := by
  obtain ⟨hname, hstate⟩ := Prod.mk.inj hshows.stored
  obtain ⟨h, hfind, hname⟩ := Option.bind_eq_some_iff.1 hname
  unfold World.workerField at hstate
  rw [hfind, Option.bind_some] at hstate
  have hload : ∃ m, WorkerModel.deserialize h = some m ∧ m.name = n ∧ m.state = S.record.state := by
    unfold WorkerModel.deserialize
    rw [hname, hstate]
    exact ⟨_, rfl, rfl, rfl⟩
  obtain ⟨m, hm, hmname, hmstate⟩ := hload
  obtain ⟨-, -, -, -, -, -, -, -, hclean, hsaveAll⟩ := WorkerModel.loadedFrom hm
  have hget : (s.workers.find? w.name).bind WorkerModel.deserialize = some m := by
    rw [hshows.worker, hfind]
    exact hm
  rw [Worker.refresh_eq]
  unfold Prog.wp
  dsimp only [id]
  rw [hget]
  refine ⟨hshows.worker, hmname, hmstate, ?_, hsaveAll, hshows.stored⟩
  rw [hclean]
  exact ⟨fun h => absurd h (Finset.notMem_empty _), fun h => by cases h⟩

theorem comes_refresh (hat : At p S) (hcall : p.call = .refresh) (hshows : Shows n S w s) :
    w.refresh.wp (Comes n S p.next) (fun _ _ => True) s := by
  refine Prog.wp_mono (wp_refresh hshows) (fun w' s' h => ?_) fun _ _ _ => trivial
  exact ⟨_, goes_refresh hat hcall, ⟨rfl, rfl, hat.status⟩, { h with }⟩

theorem record_hsetWorker (h : record n s = (some n, some S.record.state)) (status : WorkerStatus) :
    record n (s.hsetWorker n .state status) = (some n, some status) := by
  refine Prod.ext ?_ (World.workerField_hsetWorker (f := .state) status)
  have hother : WorkerField.state ≠ .name := by decide
  exact (World.workerField_hsetWorker_of_ne hother _ status).trans (Prod.mk.inj h).1

theorem comes_setState (hat : At p S) {status : WorkerStatus} (hcall : p.call = .setState status)
    (hshows : Shows n S w s) :
    (w.setState status).wp (Comes n S p.next) (fun _ _ => True) s := by
  unfold Worker.setState
  rw [hshows.name, Prog.wp_bind]
  refine ⟨_, goes_setState hat hcall, ⟨rfl, rfl, hat.status⟩, ?_⟩
  refine ⟨hshows.worker, hshows.name, rfl, ?_, hshows.saveAll, record_hsetWorker hshows.stored status⟩
  exact ⟨fun _ => rfl, fun _ => Finset.mem_insert_self _ _⟩

/-- A save writes the state if it writes all or the state is dirty, here as there. -/
theorem record_saveWorker (hshows : Shows n S w s) (cfg : SchedulerConfiguration) (b : Bool) :
    record n (s.saveWorker cfg w.model b) =
      (some n, some ((S.model.mapping b S.model.toFields).store S.record).state) := by
  obtain ⟨hname, hstate⟩ := Prod.mk.inj hshows.stored
  have hwritten : w.model.written b .state = (b || S.model.stateDirty) := by
    unfold WorkerModel.written
    rw [hshows.saveAll, Bool.or_false, Bool.eq_iff_iff, Bool.or_eq_true, Bool.or_eq_true,
      decide_eq_true_iff, hshows.dirty]
  refine Prod.ext ?_ ?_
  · show (s.saveWorker cfg w.model b).workerField n .name = _
    rw [World.workerField_saveWorker]
    split
    · exact congrArg some hshows.name
    · exact hname
  · show (s.saveWorker cfg w.model b).workerField n .state = _
    rw [World.workerField_saveWorker, hwritten]
    unfold Mapping.store Model.mapping
    by_cases hdirty : (b || S.model.stateDirty) = true
    · rw [if_pos ⟨hshows.name.symm, hdirty⟩]
      simp only [hdirty, if_true, Option.getD_some]
      exact congrArg some hshows.state
    · rw [if_neg fun h => hdirty h.2, hstate]
      simp only [hdirty]
      rfl

theorem comes_saveModel (hat : At p S) {b : Bool} (hcall : p.call = .save b) (hshows : Shows n S w s) :
    (w.saveModel env b).wp (Comes n S p.next) (fun _ _ => True) s := by
  unfold Worker.saveModel
  rw [Prog.wp_bind]
  refine ⟨_, goes_save hat hcall, ⟨rfl, rfl, hat.status⟩, ?_⟩
  refine ⟨hshows.worker, hshows.name, hshows.state, ?_, rfl, record_saveWorker hshows env.config b⟩
  exact ⟨fun h => absurd h (Finset.notMem_empty _), fun h => by cases h⟩

/-- A heartbeat is a save of all fields; the lifetime of the record is not seen. -/
theorem comes_heartbeat (hat : At p S) (hcall : p.call = .save true) (hshows : Shows n S w s) (timeout : Int) :
    (w.heartbeat env timeout).wp (Comes n S p.next) (fun _ _ => True) s := by
  have hbeat : Shows n S { w with model := w.model.setLastHeartbeat (some s.now) } s :=
    hshows.of_keeps (keeps_setLastHeartbeat _ _)
  unfold Worker.heartbeat
  rw [Prog.wp_bind]
  unfold utcnow
  rw [Prog.wp_read, Prog.wp_bind]
  refine Prog.wp_mono (comes_saveModel hat hcall hbeat) ?_ fun _ _ _ => trivial
  rintro w' s' ⟨S', hgoes, hat', hshows'⟩
  refine ⟨S', hgoes, hat', hshows'.of_record ?_⟩
  exact Prod.ext (World.workerField_expireWorker _ _) (World.workerField_expireWorker _ _)

end Calls

/-! ## A pass -/

/-- The user code leaves the record alone. -/
def Spares (env : Env) (n : WorkerName) : Prop :=
  UserCode env fun s s' _ => record n s' = record n s

section Pass

variable {n : WorkerName} {S : Process} {env : Env} {w : Worker} {s : World} {job : JobModel} {queue : Queue}

theorem Spares.sparesWorkers (h : Spares env n) :
    SparesWorkers env fun s s' _ => record n s' = record n s where
  same _ _ _ hs := Prod.ext (World.workerField_of_workers hs) (World.workerField_of_workers hs)
  user := h

/-- A program that leaves the record alone. -/
theorem wp_spares {α : Type} {c : Py α} {V : α → Prop}
    (hc : c.Steps (fun s s' _ => record n s' = record n s) V) :
    c.wp (fun _ s' => record n s' = record n s) (fun _ s' => record n s' = record n s) s :=
  Prog.wp_of_steps hc (fun _ _ _ hstep h => hstep.trans h) rfl

/-! ### The job -/

theorem keeps_addWorkingTime {m m' : WorkerModel} (h : Keeps m m') (started ended : Option Int) :
    Keeps m (m'.addWorkingTime started ended) := by
  unfold WorkerModel.addWorkingTime
  split
  · refine ⟨h.name, h.state, ?_, h.saveAll⟩
    rw [Finset.mem_insert, h.dirty]
    exact or_iff_right (by decide)
  · exact h

theorem keeps_countSuccess (m : WorkerModel) (j : JobModel) : Keeps m (Worker.countSuccess m j) := by
  have hcounted : Keeps m (m.setCurrentJobName none).addSuccessfulJob.addCompletedJob := by
    refine ⟨rfl, rfl, ?_, rfl⟩
    simp [WorkerModel.setCurrentJobName, WorkerModel.addSuccessfulJob, WorkerModel.addCompletedJob]
  exact keeps_addWorkingTime hcounted _ _

theorem keeps_countFailure (m : WorkerModel) (j : JobModel) :
    Keeps m (Worker.countFailure (m.setCurrentJobName none) j) := by
  unfold Worker.countFailure
  dsimp only
  refine keeps_addWorkingTime ?_ _ _
  split
  · refine ⟨rfl, rfl, ?_, rfl⟩
    simp [WorkerModel.setCurrentJobName, WorkerModel.setCurrentJobWorkingTime, WorkerModel.addFailedJob,
      WorkerModel.addCompletedJob]
  · refine ⟨rfl, rfl, ?_, rfl⟩
    simp [WorkerModel.setCurrentJobName, WorkerModel.setCurrentJobWorkingTime]

theorem comes_workerBeforeExecution (hat : At .beat S) (hshows : Shows n S w s) :
    (w.workerBeforeExecution env job).wp (Comes n S .perform) (fun _ _ => True) s := by
  unfold Worker.workerBeforeExecution
  dsimp only
  rw [Prog.wp_bind]
  have hset : Keeps w.model (((w.model.setCurrentJobName (some job.name)).setCurrentJobWorkingTime
      0).setJobExecutionProcessPid w.pid) := by
    refine ⟨rfl, rfl, ?_, rfl⟩
    simp [WorkerModel.setJobExecutionProcessPid, WorkerModel.setCurrentJobWorkingTime,
      WorkerModel.setCurrentJobName]
  refine Prog.wp_mono (comes_heartbeat hat rfl (hshows.of_keeps hset) _) (fun w' s' h => ?_)
    fun _ _ _ => trivial
  exact h.next fun S' hat' hshows' => comes_saveModel hat' rfl hshows'

/-- The function returns, or it raises and the job is failed. -/
theorem comes_perform (hat : At .perform S) (hshows : Shows n S w s) (ok : Bool) :
    Comes n S (if ok then .store else .storeFailed) w s :=
  ⟨_, goes_perform hat ok, ⟨rfl, rfl, hat.status⟩, { hshows with }⟩

theorem comes_finishSuccess (henv : Spares env n) (hat : At .store S) (hshows : Shows n S w s) :
    (w.finishSuccess env job).wp (fun r => Comes n S .setIdleAgain r.1) (fun _ _ => True) s := by
  unfold Worker.finishSuccess
  rw [Prog.wp_bind]
  refine Prog.wp_mono (comes_saveModel hat rfl (hshows.of_keeps (keeps_countSuccess _ job))) ?_
    fun _ _ _ => trivial
  rintro w' s' ⟨S', hgoes, hat', hshows'⟩
  rw [Prog.wp_bind]
  refine Prog.wp_mono (wp_spares (henv.sparesWorkers.expire job job.successTtl)) (fun j s'' h => ?_)
    fun _ _ _ => trivial
  exact ⟨S', hgoes, hat', hshows'.of_record h⟩

theorem comes_handleJobFailure (henv : Spares env n) (hat : At .storeFailed S) (hshows : Shows n S w s)
    (exc : String) : (w.handleJobFailure env job queue exc).wp
      (fun r s' => ∀ u, r.2.2 = .ok u → Comes n S .setIdleAgain r.1 s') (fun _ _ => True) s := by
  unfold Worker.handleJobFailure Worker.storedStoppedJobName
  dsimp only
  rw [Prog.wp_bind, Prog.wp_read, Prog.wp_bind]
  refine Prog.wp_mono (wp_spares (henv.sparesWorkers.jobHandleFailure _ _ _ _)) ?_ fun _ _ _ => trivial
  rintro ⟨j, x | u⟩ s' h
  · exact fun u hu => by cases hu
  · have hcount : Shows n S { w with
        model := Worker.countFailure (w.model.setCurrentJobName none) j } s' :=
      (hshows.of_record h).of_keeps (keeps_countFailure _ j)
    dsimp only
    rw [Prog.wp_bind]
    exact Prog.wp_mono (comes_saveModel hat rfl hcount) (fun w' s'' h _ _ => h) fun _ _ _ => trivial

theorem comes_workerPerformJob (henv : Spares env n) (hat : At .beat S) (hshows : Shows n S w s) :
    (w.workerPerformJob env job queue).wp
      (fun r s' => ∀ b, r.2.2 = .ok b → Comes n S .setIdleAgain r.1 s') (fun _ _ => True) s := by
  unfold Worker.workerPerformJob
  rw [Prog.wp_bind]
  refine Prog.wp_mono (comes_workerBeforeExecution hat hshows) ?_ fun _ _ _ => trivial
  rintro w s ⟨S₁, hgoes, hat, hshows⟩
  rw [Prog.wp_bind]
  refine Prog.wp_mono (wp_spares (henv.sparesWorkers.performAndStore w job queue)) ?_ fun _ _ _ => trivial
  rintro ⟨j, x | u⟩ s h
  -- whatever raised, the `except` clause fails the job
  · obtain ⟨S₂, hgoes', hat, hshows⟩ := comes_perform hat (hshows.of_record h) false
    dsimp only
    rw [Prog.wp_bind]
    refine Prog.wp_mono (comes_handleJobFailure henv hat hshows _) ?_ fun _ _ _ => trivial
    rintro ⟨w', j', x | u⟩ s' h'
    · exact fun b hb => by cases hb
    · exact fun _ _ => (hgoes.trans hgoes').comes (h' u rfl)
  · obtain ⟨S₂, hgoes', hat, hshows⟩ := comes_perform hat (hshows.of_record h) true
    dsimp only
    rw [Prog.wp_bind]
    refine Prog.wp_mono (comes_finishSuccess henv hat hshows) ?_ fun _ _ _ => trivial
    exact fun r s' h' _ _ => (hgoes.trans hgoes').comes h'

/-- What follows `execute_job`. -/
theorem comes_afterJob (hat : At .setIdleAgain S) (hshows : Shows n S w s) : (do
      let w ← w.setState .idle
      let w ← w.refresh
      let w ← w.heartbeat env 0
      let w ← w.saveModel env false
      pure (w, job) : Py (Worker × JobModel)).wp (fun r => Comes n S .top r.1) (fun _ _ => True) s := by
  rw [Prog.wp_bind]
  refine Prog.wp_mono (comes_setState hat rfl hshows) (fun w s h => ?_) fun _ _ _ => trivial
  refine Comes.next (g := Prod.fst) h fun S hat hshows => ?_
  rw [Prog.wp_bind]
  refine Prog.wp_mono (comes_refresh hat rfl hshows) (fun w s h => ?_) fun _ _ _ => trivial
  refine Comes.next (g := Prod.fst) h fun S hat hshows => ?_
  rw [Prog.wp_bind]
  refine Prog.wp_mono (comes_heartbeat hat rfl hshows 0) (fun w s h => ?_) fun _ _ _ => trivial
  refine Comes.next (g := Prod.fst) h fun S hat hshows => ?_
  rw [Prog.wp_bind]
  exact comes_saveModel hat rfl hshows

/-- A pass of `work` with a job, up to the top of the loop, if the loop is about to set the state to busy and
the object is as it was loaded: what it does to the state is what the steps of `S` do to it. -/
theorem wp_workPass (henv : Spares env n) (hat : At .setBusy S) (hshows : Shows n S w s)
    (hloaded : S.model.state = S.record.state) (hclean : S.model.stateDirty = false) :
    (w.workPass env job queue).wp (fun r => Comes n S .top r.1) (fun _ _ => True) s := by
  unfold Worker.workPass
  rw [Prog.wp_bind]
  refine Prog.wp_mono (wp_refresh hshows) (fun w s hshows => ?_) fun _ _ h => h.elim
  -- the object was as it is stored, so loading it again changes nothing
  have hsame : Shows n S w s :=
    { hshows with
      state := hshows.state.trans hloaded.symm
      dirty := hshows.dirty.trans (by rw [hclean]) }
  rw [Prog.wp_bind]
  refine Prog.wp_mono (comes_setState hat rfl hsame) (fun w s h => ?_) fun _ _ _ => trivial
  refine Comes.next (g := Prod.fst) h fun S hat hshows => ?_
  rw [Prog.wp_bind]
  refine Prog.wp_mono (comes_workerPerformJob henv hat hshows) ?_ fun _ _ _ => trivial
  rintro ⟨w, j, x | b⟩ s h
  -- storing the failure has raised: the loop ends
  · trivial
  · exact Comes.next (g := Prod.fst) (h b rfl) fun S hat hshows => comes_afterJob hat hshows

end Pass

end DailyScheduler.Shutdown
