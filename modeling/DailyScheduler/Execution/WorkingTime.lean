import DailyScheduler.Execution.Workers
import DailyScheduler.Lib.Breaks
import DailyScheduler.Lib.Snapshots
import Mathlib.Algebra.Ring.Int.Defs

set_option autoImplicit false

/-! # The working time of a worker

Both handlers add to `total_working_time_ms` the microseconds of the time between `started_at` and
`ended_at`, which of a `timedelta` are the part below a second. So what is missing from the total after
any sequence of jobs are the whole seconds of their durations.
-/

namespace DailyScheduler.WorkingTime

open AtomicProg

/-- `ended_at - started_at`, where both are known. -/
def duration (j : JobModel) : Int :=
  match j.startedAt, j.endedAt with
  | some s, some e => e - s
  | _, _ => 0

/-- The part of the duration that is not below a second, in seconds. -/
def wholeSeconds (j : JobModel) : Int := duration j / 1000000

/-- What the handlers add. -/
def gain (j : JobModel) : Int := duration j % 1000000

theorem gain_add_wholeSeconds (j : JobModel) : gain j + secs (wholeSeconds j) = duration j := by
  unfold gain wholeSeconds secs
  omega

theorem sum_gain (l : List JobModel) :
    (l.map gain).sum + secs (l.map wholeSeconds).sum = (l.map duration).sum := by
  induction l with
  | nil => rfl
  | cons j l ih =>
      have hj := gain_add_wholeSeconds j
      simp only [List.map_cons, List.sum_cons]
      unfold secs at hj ih ⊢
      omega

/-! ## The total, at the broker and in the worker -/

/-- The name and the total in the record of the worker. -/
def record (n : WorkerName) (w : World) : Option WorkerName × Int :=
  (w.workerField n .name, (w.workerField n .totalWorkingTime).getD 0)

/-- The record of the worker `n` has its name and this total. -/
def Stored (n : WorkerName) (total : Int) (c : Config World Event) : Prop :=
  record n c.1 = (some n, total)

/-- The worker of the record `n`, whose total is the record's. -/
structure Fits (n : WorkerName) (w : Worker) (total : Int) (c : Config World Event) : Prop where
  name : w.name = n
  model : w.model.name = n
  carried : w.model.totalWorkingTime = total
  stored : Stored n total c

/-- A party among others that leave the name and the total alone. -/
def side (n : WorkerName) : Side World Event Event where
  tag := id
  rely c c' := record n c'.1 = record n c.1
  guar _ _ := True
  rely_refl _ := rfl
  rely_trans h h' := h'.trans h

section Worker

variable {env : Env} {n : WorkerName} {w : Worker} {total : Int}

theorem stored_stable : Stable (side n).rely (Stored n total) := fun _ _ h hc => h.trans hc

theorem fits_stable : Stable (side n).rely (Fits n w total) :=
  fun _ _ h hc => ⟨hc.name, hc.model, hc.carried, h.trans hc.stored⟩

/-- A program that leaves the record alone. -/
theorem spares_triple {α : Type} {p : Py α} {Q : α → Prop} (h : p.Spares (record n) Q) :
    (side n).Triple (Fits n w total) p (fun a c => Fits n w total c ∧ Q a) fun _ _ => True := by
  refine h.triple fits_stable (fun _ _ _ => trivial) fun _ _ _ _ hc hstep => ⟨trivial, ?_⟩
  exact ⟨hc.name, hc.model, hc.carried, hstep.trans hc.stored⟩

/-- A save of the model stores its total, if the record does not have it already. -/
theorem saveModel_triple (saveAll : Bool) (hname : w.name = n) (hmodel : w.model.name = n)
    (htotal : w.model.totalWorkingTime = total) {t : Int}
    (ht : t = total ∨ .totalWorkingTime ∈ w.model.dirtyFields) :
    (side n).Triple (Stored n t) (w.saveModel env saveAll) (fun w' c => Fits n w' total c)
      fun _ _ => True := by
  refine Side.Triple.bind (Q := fun _ => Stored n total) ?_ fun _ => ?_
  · refine Side.Triple.write stored_stable stored_stable fun s _ hs => ⟨trivial, ?_⟩
    obtain ⟨hsname, hstotal⟩ := Prod.mk.inj hs
    refine Prod.ext ?_ ?_
    · show (s.saveWorker env.config w.model saveAll).workerField n .name = some n
      rw [World.workerField_saveWorker]
      split
      · exact congrArg some hmodel
      · exact hsname
    · show ((s.saveWorker env.config w.model saveAll).workerField n .totalWorkingTime).getD 0 = total
      rw [World.workerField_saveWorker]
      split
      · exact htotal
      · rename_i hnot
        rcases ht with rfl | hdirty
        · exact hstotal
        · refine absurd ⟨hmodel.symm, ?_⟩ hnot
          unfold WorkerModel.written
          rw [decide_eq_true hdirty, Bool.or_true]
  · exact Side.Triple.ret stored_stable fun c hc => ⟨hname, hmodel, htotal, hc⟩

/-- Saving what has the record's total already. -/
theorem saveModel_fits (saveAll : Bool) : (side n).Triple (Fits n w total) (w.saveModel env saveAll)
    (fun w' c => Fits n w' total c) fun _ _ => True :=
  fun c hc => saveModel_triple saveAll hc.name hc.model hc.carried (.inl rfl) c hc.stored

theorem setState_triple (s : WorkerStatus) :
    (side n).Triple (Fits n w total) (w.setState s) (fun w' c => Fits n w' total c) fun _ _ => True := by
  refine Side.Triple.bind (Q := fun _ => Fits n w total) ?_ fun _ => ?_
  · refine Side.Triple.write fits_stable fits_stable fun v _ hv =>
      ⟨trivial, hv.name, hv.model, hv.carried, ?_⟩
    refine Eq.trans ?_ hv.stored
    refine Prod.ext ?_ (congrArg (Option.getD · 0) ?_)
    · exact World.workerField_hsetWorker_of_ne (g := .state) (by decide) w.model.name s
    · exact World.workerField_hsetWorker_of_ne (g := .state) (by decide) w.model.name s
  · exact Side.Triple.ret fits_stable fun c hc => ⟨hc.name, hc.model, hc.carried, hc.stored⟩

theorem refresh_triple (hname : w.name = n) :
    (side n).Triple (Stored n total) w.refresh (fun w' c => Fits n w' total c) fun _ _ => True := by
  refine Side.Triple.bind (Q := fun r c => Stored n total c ∧
    ∀ m, r = some m → m.name = n ∧ m.totalWorkingTime = total) ?_ fun r => ?_
  · refine Side.Triple.read stored_stable (fun _ => Side.Stable.and stored_stable (Side.Stable.const _))
      (fun _ _ => trivial) fun s _ hs => ⟨hs, fun m hm => ?_⟩
    subst hname
    obtain ⟨h, hfind, hm⟩ := Option.bind_eq_some_iff.1 hm
    have hloaded := WorkerModel.loadedFrom hm
    obtain ⟨hsname, hstotal⟩ := Prod.mk.inj hs
    unfold World.workerField at hsname hstotal
    dsimp only at hsname hstotal
    rw [hfind, Option.bind_some] at hsname hstotal
    rw [hloaded.name] at hsname
    exact ⟨Option.some_inj.1 hsname, hloaded.totalWorkingTime.trans hstotal⟩
  · cases r with
    | none =>
        exact Side.Triple.raise (Side.Stable.and stored_stable (Side.Stable.const _))
          fun _ _ => trivial
    | some m =>
        refine Side.Triple.ret (Side.Stable.and stored_stable (Side.Stable.const _)) fun c hc => ?_
        obtain ⟨hmodel, htotal⟩ := hc.2 m rfl
        exact ⟨hname, hmodel, htotal, hc.1⟩

theorem spares_read {α : Type} (g : World → α) : (Prog.read g : Py α).Spares (record n) fun _ => True :=
  fun _ => ⟨rfl, trivial⟩

theorem heartbeat_triple (timeout : Int) : (side n).Triple (Fits n w total) (w.heartbeat env timeout)
    (fun w' c => Fits n w' total c) fun _ _ => True := by
  have hsave : ∀ now : Int, (side n).Triple (Fits n w total)
      (Worker.saveModel env { w with model := w.model.setLastHeartbeat (some now) } true)
      (fun w' c => Fits n w' total c) fun _ _ => True := by
    intro now c hc
    have hmodel : (w.model.setLastHeartbeat (some now)).name = n := hc.model
    have hcarried : (w.model.setLastHeartbeat (some now)).totalWorkingTime = total := hc.carried
    generalize w.model.setLastHeartbeat (some now) = m at hmodel hcarried ⊢
    exact saveModel_triple (w := { w with model := m }) true hc.name hmodel hcarried (.inl rfl) c
      hc.stored
  have hexpire : ∀ (w' : Worker) (t : Int), (side n).Triple (Fits n w' total) (do
        Prog.write fun s => s.expireWorker w'.name (s.now + secs t)
        pure w' : Py Worker) (fun w' c => Fits n w' total c) fun _ _ => True := by
    intro w' t
    have hspares : (Prog.write fun s => s.expireWorker w'.name (s.now + secs t) :
        Py Unit).Spares (record n) fun _ => True := Prog.Steps.write fun s =>
      Prod.ext (World.workerField_expireWorker _ _)
        (congrArg (Option.getD · 0) (World.workerField_expireWorker _ _))
    refine (spares_triple hspares).bind fun _ => ?_
    exact Side.Triple.ret (Side.Stable.and fits_stable (Side.Stable.const _)) fun c hc => hc.1
  refine Side.Triple.bind (spares_triple (spares_read World.now)) fun now => ?_
  exact Side.Triple.bind ((hsave now).pre fun c hc => hc.1) fun w' => hexpire w' _

/-! ## A job -/

/-- The user code leaves the record alone. -/
def Spares (env : Env) (n : WorkerName) : Prop :=
  UserCode env fun s s' _ => record n s' = record n s

theorem Spares.sparesWorkers (h : Spares env n) :
    SparesWorkers env fun s s' _ => record n s' = record n s where
  same _ _ _ hs := Prod.ext (World.workerField_of_workers hs)
    (congrArg (Option.getD · 0) (World.workerField_of_workers hs))
  user := h

theorem addWorkingTime_total (m : WorkerModel) (j : JobModel) :
    (m.addWorkingTime j.startedAt j.endedAt).totalWorkingTime = m.totalWorkingTime + gain j := by
  unfold WorkerModel.addWorkingTime gain duration
  cases j.startedAt with
  | none => simp
  | some s =>
      cases j.endedAt with
      | none => simp
      | some e => rfl

/-- What the handlers do to the counters of the model. -/
structure Counted (j : JobModel) (m m' : WorkerModel) : Prop where
  name : m'.name = m.name
  total : m'.totalWorkingTime = m.totalWorkingTime + gain j
  dirty : gain j = 0 ∨ .totalWorkingTime ∈ m'.dirtyFields

theorem counted_addWorkingTime (m : WorkerModel) (j : JobModel) :
    Counted j m (m.addWorkingTime j.startedAt j.endedAt) := by
  refine ⟨?_, addWorkingTime_total m j, ?_⟩
  · unfold WorkerModel.addWorkingTime
    split <;> rfl
  · unfold WorkerModel.addWorkingTime gain duration
    cases j.startedAt with
    | none => exact .inl rfl
    | some s =>
        cases j.endedAt with
        | none => exact .inl rfl
        | some e => exact .inr (Finset.mem_insert_self _ _)

theorem counted_success (m : WorkerModel) (j : JobModel) : Counted j m (Worker.countSuccess m j) := by
  have h := counted_addWorkingTime ((m.setCurrentJobName none).addSuccessfulJob.addCompletedJob) j
  exact ⟨h.name, h.total, h.dirty⟩

theorem counted_failure (m : WorkerModel) (j : JobModel) : Counted j m (Worker.countFailure m j) := by
  unfold Worker.countFailure
  dsimp only
  split
  · have h := counted_addWorkingTime ((m.setCurrentJobWorkingTime 0).addFailedJob.addCompletedJob) j
    exact ⟨h.name, h.total, h.dirty⟩
  · have h := counted_addWorkingTime (m.setCurrentJobWorkingTime 0) j
    exact ⟨h.name, h.total, h.dirty⟩

/-- The save of the counters. -/
theorem count_triple {j : JobModel} {m : WorkerModel} (hm : Counted j w.model m) :
    (side n).Triple (Fits n w total) (Worker.saveModel env { w with model := m } false)
      (fun w' c => Fits n w' (total + gain j) c) fun _ _ => True := by
  intro c hc
  have hmodel : m.name = n := hm.name.trans hc.model
  have htotal : m.totalWorkingTime = total + gain j := by
    rw [hm.total, hc.carried]
  refine saveModel_triple (w := { w with model := m }) false hc.name hmodel htotal ?_ c hc.stored
  exact hm.dirty.imp_left fun h => by omega

variable {job : JobModel} {queue : Queue}

theorem handleJobFailure_triple (henv : Spares env n) (s : String) :
    (side n).Triple (Fits n w total) (w.handleJobFailure env job queue s)
      (fun r c => ∀ u, r.2.2 = .ok u → Fits n r.1 (total + gain r.2.1) c) fun _ _ => True := by
  refine Side.Triple.bind (spares_triple (spares_read _)) fun stopped => ?_
  dsimp only
  refine Side.Triple.bind (Q := fun r c => Fits n w total c) ?_ fun r => ?_
  · exact (spares_triple (henv.sparesWorkers.jobHandleFailure _ _ _ _)).mono (fun _ h => h.1)
      (fun _ _ h => h.1) fun _ _ h => h
  · obtain ⟨j, x | u⟩ := r
    · exact Side.Triple.ret fits_stable fun _ _ u hu => by cases hu
    · dsimp only
      have hcount : Counted j w.model
          (Worker.countFailure (w.model.setCurrentJobName none) j) := by
        have h := counted_failure (w.model.setCurrentJobName none) j
        exact ⟨h.name, h.total, h.dirty⟩
      refine Side.Triple.bind (count_triple hcount) fun w' => ?_
      exact Side.Triple.ret fits_stable fun _ hc _ _ => hc

theorem expire_gain (henv : Spares env n) (j : JobModel) (ttl : Int) :
    (j.expire ttl).Spares (record n) fun j' => gain j' = gain j := by
  have h := henv.sparesWorkers
  refine Prog.Steps.ite (fun _ => ?_) fun _ => Prog.Steps.ite (fun _ => ?_) fun _ => rfl
  · exact Prog.Steps.bind (h.write fun _ => rfl) fun _ _ => rfl
  · exact Prog.Steps.bind (h.write fun _ => rfl) fun _ _ => rfl

theorem finishSuccess_triple (henv : Spares env n) :
    (side n).Triple (Fits n w total) (w.finishSuccess env job)
      (fun r c => Fits n r.1 (total + gain r.2) c) fun _ _ => True := by
  refine Side.Triple.bind (count_triple (counted_success w.model job)) fun w' => ?_
  refine Side.Triple.bind (spares_triple (expire_gain henv job job.successTtl)) fun j => ?_
  refine Side.Triple.ret (Side.Stable.and fits_stable (Side.Stable.const _)) fun c hc => ?_
  rw [hc.2]
  exact hc.1

theorem workerBeforeExecution_triple : (side n).Triple (Fits n w total)
    (w.workerBeforeExecution env job) (fun w' c => Fits n w' total c) fun _ _ => True := by
  unfold Worker.workerBeforeExecution
  dsimp only
  refine Side.Triple.bind (Q := fun w' c => Fits n w' total c) ?_ fun w' => saveModel_fits false
  refine fun c hc => heartbeat_triple _ c ?_
  exact ⟨hc.name, hc.model, hc.carried, hc.stored⟩

theorem workerPerformJob_triple (henv : Spares env n) :
    (side n).Triple (Fits n w total) (w.workerPerformJob env job queue)
      (fun r c => ∀ b, r.2.2 = .ok b → Fits n r.1 (total + gain r.2.1) c) fun _ _ => True := by
  refine Side.Triple.bind workerBeforeExecution_triple fun w => ?_
  refine Side.Triple.bind (spares_triple (henv.sparesWorkers.performAndStore w job queue))
    fun r => ?_
  obtain ⟨j, x | u⟩ := r
  · dsimp only
    refine Side.Triple.bind ((handleJobFailure_triple henv _).pre fun c hc => hc.1) fun r c hc => ?_
    obtain ⟨w', j', x | u⟩ := r
    · exact Side.Triple.ret (Side.Stable.const _) (fun _ _ b hb => by cases hb) c trivial
    · exact Side.Triple.ret fits_stable (fun _ hc _ _ => hc) c (hc u rfl)
  · dsimp only
    refine Side.Triple.bind ((finishSuccess_triple henv).pre fun c hc => hc.1) fun r => ?_
    exact Side.Triple.ret fits_stable fun _ hc _ _ => hc

/-! ## A sequence of jobs -/

theorem workPass_triple (henv : Spares env n) :
    (side n).Triple (Fits n w total) (w.workPass env job queue)
      (fun r c => Fits n r.1 (total + gain r.2) c) fun _ _ => True := by
  intro c hc
  refine (refresh_triple hc.name c hc.stored).bind fun w => ?_
  refine Side.Triple.bind (setState_triple .busy) fun w => ?_
  refine Side.Triple.bind (workerPerformJob_triple henv) fun r c hr => ?_
  obtain ⟨w', j, x | b⟩ := r
  · exact Side.Triple.raise (Side.Stable.const True) (fun _ _ => trivial) c trivial
  · refine (setState_triple .idle c (hr b rfl)).bind fun w c hw => ?_
    refine (refresh_triple hw.name c hw.stored).bind fun w => ?_
    refine Side.Triple.bind (heartbeat_triple 0) fun w => ?_
    refine Side.Triple.bind (saveModel_fits false) fun w => ?_
    exact Side.Triple.ret fits_stable fun _ hc => hc

theorem workAll_triple (henv : Spares env n) (l : List (JobModel × Queue)) :
    (side n).Triple (Fits n w total) (w.workAll env l)
      (fun r c => Fits n r.1 (total + (r.2.map gain).sum) c) fun _ _ => True := by
  induction l generalizing w total with
  | nil =>
      refine Side.Triple.ret fits_stable fun c hc => ?_
      have hsum : total + (([] : List JobModel).map gain).sum = total := Int.add_zero total
      rw [hsum]
      exact hc
  | cons p l ih =>
      obtain ⟨job, queue⟩ := p
      refine Side.Triple.bind (workPass_triple henv) fun r => ?_
      obtain ⟨w', j⟩ := r
      refine Side.Triple.bind ih fun r => ?_
      obtain ⟨w'', js⟩ := r
      refine Side.Triple.ret fits_stable fun c hc => ?_
      rw [List.map_cons, List.sum_cons, ← Int.add_assoc]
      exact hc

/-- Whatever jobs a worker without forks has completed, whatever their times, and whatever others do that
leaves its record alone: its total is the sum of their durations exactly if the whole seconds of these
add up to nothing. -/
theorem total_eq_iff (env : Env) (n : WorkerName) (w : Worker) (total : Int)
    (l : List (JobModel × Queue)) (henv : Spares env n) :
    (side n).Triple (Fits n w total) (w.workAll env l)
      (fun r _ => r.1.model.totalWorkingTime = total + (r.2.map duration).sum ↔
        (r.2.map wholeSeconds).sum = 0) fun _ _ => True := by
  refine (workAll_triple henv l).mono (fun _ h => h) (fun r c hc => ?_) fun _ _ h => h
  have hsum := sum_gain r.2
  rw [hc.carried]
  unfold secs at hsum
  omega

end Worker

/-! ## A sample -/

/-- User code that runs for a second and a half. -/
def slowEnv : Env :=
  { Sample.env with
    callableFunc := fun _ => .ok fun job => do
      Prog.write fun w => { w with now := w.now + 1500000 }
      Sample.quietCode (.ok .none) job }

theorem slowEnv_spares (n : WorkerName) : Spares slowEnv n := by
  intro name f job hf
  cases hf
  refine fun s => ⟨rfl, fun p hp => ?_⟩
  cases hp

def sampleJobs : List (JobModel × Queue) := [(Sample.job "j", Sample.queue)]

theorem sample_total_eq_iff : (side "w").Triple (Fits "w" (Sample.worker "w") 0)
    ((Sample.worker "w").workAll slowEnv sampleJobs)
    (fun r _ => r.1.model.totalWorkingTime = 0 + (r.2.map duration).sum ↔
      (r.2.map wholeSeconds).sum = 0) fun _ _ => True :=
  total_eq_iff slowEnv "w" (Sample.worker "w") 0 sampleJobs (slowEnv_spares "w")

/-- A job of a second and a half counts for half a second. -/
theorem sample_total_ne : ¬ (side "w").Triple (Fits "w" (Sample.worker "w") 0)
    ((Sample.worker "w").workAll slowEnv sampleJobs)
    (fun r _ => r.1.model.totalWorkingTime = 0 + (r.2.map duration).sum) fun _ _ => True := by
  intro h
  let world := ((World.init 0).saveWorker {} (Sample.worker "w").model true).saveJob (Sample.job "j") true
  have hfits : Fits "w" (Sample.worker "w") 0 (world, []) := ⟨rfl, rfl, rfl, rfl⟩
  let p := (Sample.worker "w").workAll slowEnv sampleJobs
  have hrun : (p.run world).val.toOption.map
      (fun r => (r.1.model.totalWorkingTime, (r.2.map duration).sum)) = some (500000, 1500000) := by
    decide +kernel
  cases hval : (p.run world).val with
  | error x =>
      rw [hval] at hrun
      cases hrun
  | ok r =>
      obtain ⟨t, htotal⟩ := (h (world, []) hfits).run hval
      rw [hval] at hrun
      obtain ⟨hgot, hwanted⟩ := Prod.mk.inj (Option.some_inj.1 hrun)
      rw [hgot, hwanted] at htotal
      exact absurd htotal (by decide)

end DailyScheduler.WorkingTime
