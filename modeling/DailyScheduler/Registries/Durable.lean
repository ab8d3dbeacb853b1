import DailyScheduler.Concurrency.Dequeue
import DailyScheduler.Execution.Steps
import DailyScheduler.Lib.Run
import DailyScheduler.Model.Operations
import DailyScheduler.Model.Sample

set_option autoImplicit false

/-! # A queued job keeps its record

The broker forgets a record when its deadline is reached, and `enqueue_job` does not clear a
deadline that an earlier execution or deletion has set. So a job is kept in its queue, with its
record, however long no worker comes, when its record is stored without a deadline at the time it is
enqueued and no earlier execution of it ends afterwards with `expire`.
-/

namespace DailyScheduler.QueuedJob

open AtomicProg

/-- The record is stored completely and never expires. -/
def Plain (n : JobName) (w : World) : Prop := w.loadable n ∧ w.jobs.deadline n = none

/-- The job is queued and `dequeue_any` will find its record. -/
def Kept (q : QueueName) (n : JobName) (w : World) : Prop :=
  w.inRegistry q .queued n ∧ w.loadable n

/-- The invariant: kept, and no deadline that could end this. -/
def Durable (q : QueueName) (n : JobName) (w : World) : Prop :=
  w.inRegistry q .queued n ∧ Plain n w

theorem Durable.kept {q : QueueName} {n : JobName} {w : World} (h : Durable q n w) :
    Kept q n w := ⟨h.1, h.2.1⟩

/-! ## Commands that spare the job -/

/-- A command that neither ends nor limits the life of the record, leaves the name in the
queue, and enqueues it only by adding it there. -/
structure Spares (q : QueueName) (n : JobName) (w w' : World) (es : List Event) : Prop where
  plain : Plain n w → Plain n w'
  queued : w.inRegistry q .queued n → w'.inRegistry q .queued n
  enqueued : .enqueued q n ∈ es → w'.inRegistry q .queued n

variable {q : QueueName} {n : JobName}

theorem Spares.durable {w w' : World} {es : List Event} (h : Spares q n w w' es)
    (hw : Durable q n w) : Durable q n w' := ⟨h.queued hw.1, h.plain hw.2⟩

/-- Nothing about job records or queued registries. -/
theorem Spares.of_frame {w w' : World} (hjobs : w'.jobs = w.jobs)
    (hreg : w'.registry = w.registry) : Spares q n w w' [] where
  plain := fun h => by
    unfold Plain World.loadable at h ⊢
    rw [hjobs]
    exact h
  queued := fun h => by
    rw [World.inRegistry_iff, hreg]
    exact h
  enqueued := fun h => by cases h

theorem Spares.refl (w : World) : Spares q n w w [] := .of_frame rfl rfl

/-- An event other than the enqueuing of the job. -/
theorem Spares.event (w : World) {e : Event} (he : e ≠ .enqueued q n) : Spares q n w w [e] where
  plain := id
  queued := id
  enqueued := fun h => absurd (List.mem_singleton.1 h).symm he

theorem Spares.zadd (w : World) (q' : QueueName) (k : RegistryKind) (m : JobName) (s : Int) :
    Spares q n w (w.zadd q' k m s) [] where
  plain := id
  queued := fun h => (World.inRegistry_zadd ..).2 (Or.inr h)
  enqueued := fun h => by cases h

theorem Spares.zrem (w : World) {q' : QueueName} {k : RegistryKind} {m : JobName}
    (h : k = .queued → m ≠ n) : Spares q n w (w.zrem q' k m) [] where
  plain := id
  queued := fun hin => by
    refine (World.inRegistry_zrem ..).2 ⟨fun h' => ?_, hin⟩
    exact h h'.2.1.symm h'.2.2.symm
  enqueued := fun h => by cases h

theorem Spares.trans {w w' w'' : World} (h : Spares q n w w' []) (h' : Spares q n w' w'' []) :
    Spares q n w w'' [] where
  plain := h'.plain ∘ h.plain
  queued := h'.queued ∘ h.queued
  enqueued := fun h => by cases h

theorem Spares.saveJob (w : World) (j : JobModel) (sa : Bool) :
    Spares q n w (w.saveJob j sa) [] where
  plain := fun h => by
    refine ⟨World.loadable_saveJob (Or.inl h.1), ?_⟩
    cases hd : (w.saveJob j sa).jobs.deadline n with
    | none => rfl
    | some d =>
        have := World.deadline_of_saveJob hd
        rw [h.2] at this
        cases this
  queued := id
  enqueued := fun h => by cases h

theorem Spares.persistJob (w : World) (m : JobName) : Spares q n w (w.persistJob m) [] where
  plain := fun h => by
    obtain ⟨⟨v, hv, hc⟩, hd⟩ := h
    refine ⟨⟨v, by simp [World.persistJob, hv], hc⟩, ?_⟩
    show (w.jobs.persist m).deadline n = none
    rw [TtlMap.deadline_persist]
    split
    · rfl
    · exact hd
  queued := id
  enqueued := fun h => by cases h

theorem Spares.hsetStatus (w : World) (m : JobName) (s : JobStatus) :
    Spares q n w (w.hsetStatus m s) [] where
  plain := fun h => ⟨World.loadable_hsetStatus h.1, by simp [World.hsetStatus, h.2]⟩
  queued := id
  enqueued := fun h => by cases h

theorem Spares.expireJob (w : World) {m : JobName} (d : Int) (h : m ≠ n) :
    Spares q n w (w.expireJob m d) [] where
  plain := fun hp => by
    obtain ⟨⟨v, hv, hc⟩, hd⟩ := hp
    refine ⟨⟨v, by simp [World.expireJob, hv], hc⟩, ?_⟩
    show (w.jobs.expireAt m d).deadline n = none
    rw [TtlMap.deadline_expireAt_of_ne _ _ (Ne.symm h)]
    exact hd
  queued := id
  enqueued := fun h => by cases h

theorem Spares.deleteJob (w : World) {m : JobName} (h : m ≠ n) :
    Spares q n w (w.deleteJob m) [] where
  plain := fun hp => by
    obtain ⟨⟨v, hv, hc⟩, hd⟩ := hp
    have hne : ¬ n = m := Ne.symm h
    refine ⟨⟨v, ?_, hc⟩, ?_⟩
    · simp [World.deleteJob, TtlMap.find?_erase, hne, hv]
    · simp [World.deleteJob, TtlMap.deadline_erase, hne, hd]
  queued := id
  enqueued := fun h => by cases h

theorem Spares.advance (w : World) (d : Nat) : Spares q n w (w.advance d) [] where
  plain := fun h => by
    obtain ⟨⟨v, hv, hc⟩, hd⟩ := h
    refine ⟨⟨v, ?_, hc⟩, ?_⟩
    · rw [← hv]
      exact TtlMap.find?_purge_of_deadline_none _ _ hd
    · simp [World.advance, TtlMap.deadline_purge, hd]
  queued := id
  enqueued := fun h => by cases h

theorem Spares.zremrangebyscore (w : World) (q' : QueueName) {k : RegistryKind}
    (hk : k ≠ .queued) (lo hi : Int) : Spares q n w (w.zremrangebyscore q' k lo hi) [] where
  plain := id
  queued := fun h => by
    rw [World.inRegistry_iff, World.score_zremrangebyscore, if_neg fun h' => hk h'.2.symm]
    exact h
  enqueued := fun h => by cases h

/-- Executing a job, whichever it is, spares the job up to the commands of `expire`. -/
theorem spares_of_execStep {q' : QueueName} {m : JobName} {w w' : World} {es : List Event}
    (h : ExecStep q' m w w' es) : Spares q n w w' es := by
  cases h with
  | same => exact .refl w
  | add k s => exact .zadd w q' k m s
  | remove => exact .zrem w fun h => by cases h
  | save j sa => exact .saveJob w j sa
  | persist => exact .persistJob w m
  | result r => exact .of_frame rfl rfl
  | deleteResults => exact .of_frame rfl rfl
  | saveWorker cfg model sa => exact .of_frame rfl rfl
  | expireWorker name d => exact .of_frame rfl rfl
  | success => exact .event w (by simp)
  | failure => exact .event w (by simp)

theorem spares_of_expireStep {m : JobName} {w w' : World} {es : List Event}
    (h : ExpireStep m w w' es) (hm : m ≠ n) : Spares q n w w' es := by
  cases h with
  | expire d => exact .expireJob w d hm
  | delete => exact .deleteJob w hm

theorem spares_of_execOr {q' : QueueName} {m : JobName} {w w' : World} {es : List Event}
    (h : ExecOr q' m (Spares q n) w w' es) : Spares q n w w' es :=
  h.elim spares_of_execStep id

/-! ## Methods that spare the job -/

section Methods

variable {env : Env}

theorem read_steps {β : Type} (g : World → β) :
    (Prog.read g : Py β).Steps (Spares q n) fun b => ∃ w, b = g w :=
  Prog.Steps.read .refl

theorem save_steps {m : JobName} {j : JobModel} (hj : j.name = m) (sa : Bool) :
    (j.save sa).Steps (Spares q n) (Named m) :=
  Prog.Steps.ite (fun _ => (Prog.Steps.write fun w => .saveJob w j sa).bind fun _ _ => hj)
    fun _ => hj

theorem timestampOrNow_steps (t : Option Int) :
    (timestampOrNow t).Steps (Spares q n) fun _ => True := by
  cases t with
  | none => exact (read_steps _).of_true
  | some t => exact Prog.Steps.ite (fun _ => (read_steps _).of_true) (fun _ => trivial)

theorem enqueueScore_steps (q' : Queue) (atFront : Bool) :
    (q'.enqueueScore atFront).Steps (Spares q n) fun _ => True := by
  refine Prog.Steps.ite (fun _ => (read_steps _).of_true) fun _ => ?_
  refine Prog.Steps.bind (Q := fun _ => True) ?_ fun last _ => timestampOrNow_steps last
  exact (read_steps _).bind fun l _ => trivial

/-- The pipeline of `enqueue_job`: the event comes with the name in the queue. -/
theorem push_steps (q' : Queue) (m : JobName) (s : Int) :
    (q'.push m s).Steps (Spares q n) fun _ => True := by
  refine Prog.Steps.command fun w => ?_
  have hrem : Spares q n w (w.zrem q'.name .scheduled m) [] := .zrem w fun h => by cases h
  have hadd := Spares.zadd (q := q) (n := n) (w.zrem q'.name .scheduled m) q'.name .queued m s
  have hboth := hrem.trans hadd
  refine ⟨hboth.plain, hboth.queued, fun h => ?_⟩
  simp only [List.mem_singleton, Event.enqueued.injEq] at h
  obtain ⟨rfl, rfl⟩ := h
  exact (World.inRegistry_zadd ..).2 (Or.inl ⟨rfl, rfl, rfl⟩)

theorem runSync_steps (hU : UserCode env (Spares q n)) {q' : Queue} {j : JobModel} :
    (q'.runSync env j).Steps (Spares q n) (Named j.name) := by
  have hcall : ∀ w, Spares q n w w [.called j.name] := fun w => .event w (by simp)
  exact (DailyScheduler.runSync_steps hU hcall rfl).mono (fun _ _ _ => spares_of_execOr)
    fun _ => id

/-- `enqueue_job`; on a synchronous queue it runs and expires its job. -/
theorem enqueueJob_steps (hU : UserCode env (Spares q n)) {q' : Queue} {j : JobModel}
    (atFront : Bool) (hj : q'.isAsync = true ∨ j.name ≠ n) :
    (q'.enqueueJob env j atFront).Steps (Spares q n) fun _ => True := by
  refine (read_steps _).bind fun now _ => ?_
  have hsave : ((Queue.enqueuedModel j now).save false).Steps (Spares q n) (Named j.name) :=
    save_steps (Queue.enqueuedModel_name j now) false
  refine (After.get_steps (Q := fun r => r.1.name = j.name) hsave fun _ _ h => h).bind
    fun r hr => ?_
  obtain ⟨j', u⟩ := r
  have hj' : j'.name = j.name := hr
  refine Prog.Steps.ite (fun _ => ?_) fun hsync => ?_
  · refine (enqueueScore_steps q' atFront).bind fun s _ => ?_
    exact (push_steps q' j'.name s).bind fun _ _ => trivial
  · have hne : j'.name ≠ n := hj' ▸ hj.resolve_left hsync
    refine (After.get_steps (Q := fun r => r.1.name = j'.name) (runSync_steps hU)
      fun _ _ h => h).bind fun r hr => ?_
    obtain ⟨j'', u⟩ := r
    have hj'' : j''.name = j'.name := hr
    exact (expire_steps hj'' j''.jobInfoTtl).mono (fun _ _ _ h => spares_of_expireStep h hne)
      fun _ _ => trivial

theorem pickName_steps (name : Option JobName) (queueName : QueueName) (id : Option Nat) :
    (JobModel.pickName name queueName id).Steps (Spares q n) fun m =>
      ∃ t, m = (name.getD (JobModel.defaultName queueName id t)) := by
  cases name with
  | none =>
      refine (read_steps _).bind fun t _ => ?_
      exact ⟨t, rfl⟩
  | some m =>
      refine (read_steps _).bind fun found _ => ?_
      exact Prog.Steps.ite (fun _ => trivial) fun _ => ⟨0, rfl⟩

theorem nameFor_eq (a : JobArgs) (queueName : QueueName) (t : Int) :
    JobModel.nameFor a queueName t
      = a.name.getD (JobModel.defaultName queueName a.scheduledTaskId t) := by
  unfold JobModel.nameFor
  cases a.name <;> rfl

theorem create_steps (a : JobArgs) (queueName : QueueName) (status : JobStatus) :
    (JobModel.create env a queueName status).Steps (Spares q n) fun j =>
      ∃ t, j.name = JobModel.nameFor a queueName t := by
  refine Prog.Steps.ite (fun _ => trivial) fun _ => ?_
  refine (pickName_steps a.name queueName a.scheduledTaskId).bind fun name hname => ?_
  refine (read_steps _).bind fun now _ => ?_
  have hname' : (JobModel.new env.config a queueName name status now).name = name := rfl
  have hsave : ((JobModel.new env.config a queueName name status now).save false).Steps
      (Spares q n) (Named name) := save_steps hname' false
  refine (After.get_steps (Q := fun r => r.1.name = name) hsave fun _ _ h => h).bind
    fun r hr => ?_
  obtain ⟨j, u⟩ := r
  refine (Prog.Steps.emit fun w => .event w (by simp)).bind fun _ _ => ?_
  obtain ⟨t, ht⟩ := hname
  have hj : j.name = name := hr
  exact ⟨t, by rw [hj, ht, nameFor_eq]⟩

theorem createAndEnqueueJob_steps (hU : UserCode env (Spares q n)) {q' : Queue} {a : JobArgs}
    (when' : Queue.When) (atFront : Bool)
    (ha : q'.isAsync = true ∨ ∀ t, JobModel.nameFor a q'.name t ≠ n) :
    (q'.createAndEnqueueJob env a when' atFront).Steps (Spares q n) fun _ => True := by
  refine (create_steps a q'.name _).bind fun j hj => ?_
  obtain ⟨t, ht⟩ := hj
  cases when' with
  | none => exact enqueueJob_steps hU atFront (ha.imp_right fun h => ht ▸ h t)
  | datetime s =>
      refine (After.get_steps (Q := fun _ => True) (save_steps rfl false) fun _ _ _ => trivial).bind
        fun r _ => ?_
      obtain ⟨j', u⟩ := r
      exact (Prog.Steps.write fun w => .zadd w _ _ _ _).bind fun _ _ => trivial
  | other => trivial

/-- `_enqueue_multiple_jobs`; the jobs have the names it was given. -/
theorem enqueueMultipleJobs_steps (hU : UserCode env (Spares q n)) {q' : Queue}
    {names : List JobName} (atFront : Bool) (h : q'.isAsync = true ∨ n ∉ names) :
    (enqueueMultipleJobs env q' names atFront).Steps (Spares q n) fun _ => True := by
  have hget := getMany_steps (R := Spares q n) (fun w => .refl w) env names
  refine hget.bind fun js hjs => Prog.Steps.forEach fun job hjob => ?_
  cases job with
  | none => trivial
  | some j =>
      refine (After.get_steps (Q := fun r => r.1.name = j.name) (save_steps rfl false)
        fun _ _ h => h).bind fun r hr => ?_
      obtain ⟨j', u⟩ := r
      have hj' : j'.name = j.name := hr
      have hne : q'.isAsync = true ∨ j'.name ≠ n := by
        refine h.imp_right fun hn heq => hn ?_
        rw [← heq, hj']
        exact hjs j hjob
      exact (enqueueJob_steps hU atFront hne).bind fun _ _ => trivial

theorem removeFromRegistries_spares (q' : Queue) {m : JobName} (h : m ≠ n) (w : World) :
    Spares q n w (q'.removeFromRegistries m w) [] := by
  have hz : ∀ k w, Spares q n w (w.zrem q'.name k m) [] := fun k w => .zrem w fun _ => h
  exact ((((hz .finished w).trans (hz .scheduled _)).trans (hz .active _)).trans
    (hz .canceled _)).trans (hz .queued _)

theorem removeFromAll_spares (q' : Queue) {m : JobName} (h : m ≠ n) (w : World) :
    Spares q n w (q'.removeFromAll m w) [] :=
  (removeFromRegistries_spares q' h w).trans (.zrem _ fun _ => h)

theorem get_steps (m : JobName) : (JobModel.get env m).Steps (Spares q n) fun job =>
    ∀ j, job = some j → j.name = m := by
  intro w
  exact ⟨.refl w, fun j hj => JobModel.name_of_fetch hj⟩

theorem deleteJob_steps (q' : Queue) {m : JobName} (e : Bool) (h : m ≠ n) :
    (q'.deleteJob env m e).Steps (Spares q n) fun _ => True := by
  have hget : (if e then JobModel.get env m else pure none : Py (Option JobModel)).Steps
      (Spares q n) fun job => ∀ j, job = some j → j.name = m := by
    refine Prog.Steps.ite (fun _ => get_steps m) fun _ => ?_
    intro j hj
    cases hj
  refine hget.bind fun job hjob => ?_
  cases job with
  | none => exact Prog.Steps.write fun w => removeFromAll_spares q' h w
  | some j =>
      have hj : j.name ≠ n := hjob j rfl ▸ h
      refine Prog.Steps.ite (fun _ => ?_) fun _ => ?_
      · refine Prog.Steps.bind (Q := fun _ => True) ?_ fun _ _ =>
          Prog.Steps.write fun w => removeFromAll_spares q' h w
        exact (Prog.Steps.write fun w => .deleteJob w hj).bind fun _ _ => trivial
      · refine Prog.Steps.write fun w => (removeFromAll_spares q' h w).trans ?_
        unfold Queue.expireIn
        split
        · exact .expireJob _ _ hj
        · exact .refl _

theorem cancelJob_steps (q' : Queue) {m : JobName} (h : m ≠ n) :
    (q'.cancelJob env m).Steps (Spares q n) fun _ => True := by
  refine (get_steps m).bind fun job _ => ?_
  cases job with
  | none => trivial
  | some j =>
      refine Prog.Steps.ite (fun _ => trivial) fun _ => ?_
      refine Prog.Steps.bind (Q := fun _ => True) (Prog.Steps.command fun w => ?_) fun _ _ => ?_
      · have hboth := (Spares.hsetStatus (q := q) (n := n) w j.name (Queue.cancelStatus j)).trans
          (removeFromRegistries_spares q' h _)
        refine ⟨hboth.plain, hboth.queued, fun hmem => ?_⟩
        split at hmem <;> simp at hmem
      · refine Prog.Steps.ite (fun _ => Prog.Steps.write fun w => .zadd w _ _ _ _) fun _ => ?_
        exact (read_steps _).bind fun t _ => Prog.Steps.write fun w => .zadd w _ _ _ _

/-! Reading and cleaning. -/

theorem cleanup_steps (r : Registry) (t : Option Int) :
    (r.cleanup t).Steps (Spares q n) fun _ => True := by
  refine Prog.Steps.ite (fun hr => ?_) fun _ => trivial
  have hk : r.kind ≠ .queued := by
    intro hk
    simp [Registry.expires, hk] at hr
  exact (timestampOrNow_steps t).bind fun score _ =>
    Prog.Steps.write fun w => .zremrangebyscore w r.queue hk 0 score

theorem allWithTimestamps_steps (r : Registry) (i j : Int) :
    (r.allWithTimestamps i j).Steps (Spares q n) fun _ => True :=
  (cleanup_steps r none).bind fun _ _ => (read_steps _).of_true

theorem all_steps (r : Registry) (i j : Int) :
    (r.all i j).Steps (Spares q n) fun _ => True :=
  (allWithTimestamps_steps r i j).bind fun _ _ => trivial

theorem count_steps (q' : Queue) : q'.count.Steps (Spares q n) fun _ => True := by
  have key : ∀ l : List Registry, (Queue.count.countOf l).Steps (Spares q n) fun _ => True := by
    intro l
    induction l with
    | nil => trivial
    | cons r l ih =>
        refine Prog.Steps.bind (Q := fun _ => True) ?_ fun c _ => ih.bind fun _ _ => trivial
        exact (cleanup_steps r none).bind fun _ _ => (read_steps _).of_true
  exact key q'.registries

theorem getAllJobNames_steps (q' : Queue) :
    q'.getAllJobNames.Steps (Spares q n) fun _ => True := by
  have key : ∀ l : List JobName,
      (Queue.getAllJobNames.existing l).Steps (Spares q n) fun _ => True := by
    intro l
    induction l with
    | nil => trivial
    | cons m l ih => exact (read_steps _).bind fun _ _ => ih.bind fun _ _ => trivial
  exact (all_steps _ _ _).bind fun _ _ => (all_steps _ _ _).bind fun _ _ =>
    (all_steps _ _ _).bind fun _ _ => (all_steps _ _ _).bind fun _ _ =>
    (all_steps _ _ _).bind fun _ _ => (all_steps _ _ _).bind fun _ _ => key _

theorem jobHandleSuccess_steps (q' : Queue) (j : JobModel) (v : PyValue) (ttl ttl' : Int) :
    (q'.jobHandleSuccess j v ttl ttl').Steps (Spares q n) (Named j.name) :=
  (DailyScheduler.jobHandleSuccess_steps (U := Spares q n) rfl v ttl ttl').mono
    (fun _ _ _ => spares_of_execOr) fun _ => id

theorem jobHandleFailure_steps (q' : Queue) (status : JobStatus) (j : JobModel) (s : String) :
    (q'.jobHandleFailure env status j s).Steps (Spares q n) (Named j.name) :=
  (DailyScheduler.jobHandleFailure_steps (U := Spares q n) rfl status s).mono
    (fun _ _ _ => spares_of_execOr) fun _ => id

theorem prepareForExecution_steps (q' : Queue) (j : JobModel) (name : WorkerName) :
    (j.prepareForExecution name q'.activeJobRegistry).Steps (Spares q n) (Named j.name) :=
  (DailyScheduler.prepareForExecution_steps (q := q'.name) (U := Spares q n) rfl name).mono
    (fun _ _ _ => spares_of_execOr) fun _ => id

/-- The body of the loop of `clean_registries`, with the failure callback it calls. -/
theorem cleanAbandoned_steps (hU : UserCode env (Spares q n)) (q' : Queue) (t : Int)
    (p : Int × JobName) : (q'.cleanAbandoned env t p).Steps (Spares q n) fun _ => True := by
  refine (get_steps p.2).bind fun job _ => ?_
  cases job with
  | none => trivial
  | some j =>
      refine Prog.Steps.ite (fun _ => trivial) fun _ => ?_
      have hcall : (j.callFailureCallback env).Steps (Spares q n) (Named j.name) :=
        callCallback_steps hU rfl _ _ fun w => .event w (by simp)
      refine (After.get_steps (Q := fun _ => True) hcall fun _ _ _ => trivial).bind fun r _ => ?_
      obtain ⟨j', u⟩ := r
      refine (After.get_steps (Q := fun _ => True) (jobHandleFailure_steps q' .failed j' _)
        fun _ _ _ => trivial).bind fun _ _ => ?_
      exact Prog.Steps.forEach fun r _ => cleanup_steps r _

end Methods

/-! ## Operations that spare the job -/

section Operations

variable {env : Env} {w : World}

theorem Durable.of_steps {α : Type} {p : Py α} {Q : α → Prop} (hp : p.Steps (Spares q n) Q)
    (h : Durable q n w) : Durable q n (p.exec w) :=
  hp.exec (fun _ _ _ hs hw => hs.durable hw) h

/-- Unless somebody popped the name, the job is kept. -/
def Unpopped (q : QueueName) (n : JobName) (c : Config World Event) : Prop :=
  (∀ q', .popped q' n ∉ c.2) → Durable q n c.1

theorem dequeueRule (q : QueueName) (n : JobName) (qs : List QueueName) :
    DequeueRule (Side.alone World Event) (Unpopped q n)
      { Seen := fun _ _ => True, Gone := fun m c => c.1.jobExists m = false,
        Held := fun _ _ _ => True, Lost := fun _ _ => True, Given := fun _ _ _ => True } qs := by
  refine DequeueRule.of_alone (fun w t q' m _ h hgone hno => ?_)
    (fun w w' t q' m _ h hp => ⟨fun hno => ?_, trivial⟩) (fun w t e he h hno => ?_)
    (fun _ _ _ _ _ _ => trivial)
  · -- `compact` deletes only names without a record
    have hw : Durable q n w := h hno
    refine (Spares.zrem w fun _ hm => ?_).durable hw
    subst hm
    rw [hw.2.1.jobExists] at hgone
    cases hgone
  · have hw : Durable q n w := h fun q'' hmem => hno q'' (List.mem_append_left _ hmem)
    have hne : ¬ n = m := by
      rintro rfl
      exact hno q' (by simp)
    obtain ⟨z, rfl, -, hscore⟩ := World.zpopmin_some hp
    refine ⟨?_, hw.2⟩
    rw [World.inRegistry_iff, hscore, if_neg fun h' => hne h'.2.2]
    exact hw.1
  · exact h fun q' hmem => hno q' (List.mem_append_left _ hmem)

/-- `dequeue_any` and `prepare_for_execution` keep every job they do not pop. -/
theorem startNext_triple (queues : List Queue) (timeout : Option Int) (worker : WorkerName)
    (fuel : Nat) : (Side.alone World Event).Triple (Unpopped q n)
      (Op.startNext env queues timeout worker fuel) (fun _ => Unpopped q n)
      (fun _ => Unpopped q n) := by
  refine Side.Triple.bind (((dequeueRule q n (queues.map Queue.name)).dequeueAny_triple env
    timeout fuel).mono (fun _ h => h) (fun _ _ h => h.1) (fun _ _ h => h)) fun r => ?_
  cases r with
  | none => exact Side.Triple.ret (Side.alone_stable _) fun _ h => h
  | some p =>
      obtain ⟨job, q'⟩ := p
      have hsteps : (do let _ ← After.get (job.prepareForExecution worker q'.activeJobRegistry)
          : Py Unit).Steps (Spares q n) fun _ => True :=
        (After.get_steps (Q := fun _ => True) (prepareForExecution_steps q' job worker)
          fun _ _ _ => trivial).bind fun _ _ => trivial
      refine (hsteps.triple (I := Unpopped q n) (Side.alone_stable _) (fun _ _ h => h)
        fun s t s' es h hs => ⟨trivial, fun hno => ?_⟩).mono (fun _ h => h) (fun _ _ h => h.1)
        (fun _ _ h => h)
      exact hs.durable (h fun q'' hmem => hno q'' (List.mem_append_left _ hmem))

theorem Durable.start {queues : List Queue} {timeout : Option Int} {worker : WorkerName}
    {fuel : Nat} (h : Durable q n w)
    (hno : ∀ q', .popped q' n ∉ Op.events env w (.start queues timeout worker fuel)) :
    Durable q n ((Op.startNext env queues timeout worker fuel).exec w) := by
  have hgoal : Unpopped q n ((Op.startNext env queues timeout worker fuel).exec w,
      ((Op.startNext env queues timeout worker fuel).run w).trace) :=
    Side.Triple.alone_exec (startNext_triple queues timeout worker fuel) fun _ => h
  exact hgoal hno

theorem Durable.clean (hU : UserCode env (Spares q n)) {q' : Queue} {t : Option Int}
    (h : Durable q n w) : Durable q n ((q'.cleanRegistries env t).exec w) := by
  refine Prog.exec_bind_keeps (h.of_steps (timestampOrNow_steps t)) fun before _ => ?_
  have hcompact : ∀ w', Durable q n w' →
      Durable q n ((Registry.mk q'.name .queued).compact.exec w') := by
    intro w' hw'
    refine Registry.exec_compact_keeps (fun w'' m hw'' hm => ?_) hw'
    refine (Spares.zrem w'' fun _ heq => ?_).durable hw''
    rw [heq, hw''.2.1.jobExists] at hm
    cases hm
  refine Prog.exec_bind_keeps (hcompact _ (h.of_steps (timestampOrNow_steps t))) fun _ _ => ?_
  refine Durable.of_steps (Q := fun _ => True) ?_
    (hcompact _ (h.of_steps (timestampOrNow_steps t)))
  refine Prog.Steps.bind (Q := fun _ => True) ?_ fun started _ =>
    Prog.Steps.forEach fun p _ => cleanAbandoned_steps hU q' before p
  exact (timestampOrNow_steps _).bind fun _ _ => (read_steps _).of_true

theorem Durable.clear {q' : Queue} {k : RegistryKind} (h : Durable q n w)
    (hn : ¬ w.inRegistry q'.name k n) :
    Durable q n ((clearRegistry env ⟨q'.name, k⟩).exec w) := by
  have hall := Registry.run_all ⟨q'.name, k⟩ 0 (-1) w
  have hcleaned : Durable q n ((Registry.mk q'.name k).cleaned none w) := by
    rw [← Prog.exec_eq_of_run hall]
    exact h.of_steps (all_steps _ _ _)
  unfold clearRegistry
  rw [Prog.exec_bind, Prog.exec_eq_of_run hall, hall]
  dsimp only
  refine hcleaned.of_steps (Q := fun _ => True) (Prog.Steps.forEach fun m hm => ?_)
  -- the names that are cleared were in the registry, and the job was not
  have hne : m ≠ n := by
    rintro rfl
    rw [SortedSet.range_all] at hm
    obtain ⟨p, hp, hpm⟩ := List.mem_map.1 hm
    have hin : ((Registry.mk q'.name k).cleaned none w).inRegistry q'.name k m :=
      (SortedSet.mem_iff_entry _ _).2 ⟨p.1, by rw [← hpm]; exact hp⟩
    exact hn (Registry.inRegistry_of_cleaned hin)
  have hdelete : ((Registry.mk q'.name k).delete m).Steps (Spares q n) fun _ => True :=
    Prog.Steps.write fun w => .zrem w fun _ => hne
  refine hdelete.bind fun _ _ => (get_steps m).bind fun job hjob => ?_
  cases job with
  | none => trivial
  | some j =>
      have hj : j.name ≠ n := hjob j rfl ▸ hne
      exact Prog.Steps.bind (Q := fun _ => True)
        ((Prog.Steps.write fun w => .deleteJob w hj).bind fun _ _ => trivial) fun _ _ => trivial

/-- Whether the worker's end of an execution reaches `expire` with a lifetime that it acts on. -/
def Expires (job : JobModel) (v : PyValue) : Prop :=
  job.serializable = true ∧ (job.successTtl = 0 ∨ job.successTtl > 0 ∧ v.encodes = true)

theorem Durable.finish {q' : Queue} {job : JobModel} {v : PyValue} (h : Durable q n w)
    (hex : job.name = n → ¬ Expires job v) :
    Durable q n ((Op.finishJob q' job v).exec w) := by
  have hsaved : Durable q n (w.saveJob job true) := (Spares.saveJob w job true).durable h
  have hdone := hsaved.of_steps (jobHandleSuccess_steps q' job.saved v job.jobInfoTtl
    job.successTtl)
  rw [Op.exec_finishJob]
  split
  · exact h
  · rename_i hs
    split
    · rename_i hr
      unfold JobModel.expired
      split
      · -- the record is deleted at once
        rename_i h0
        refine (Spares.deleteJob _ fun hm => ?_).durable hdone
        exact hex hm ⟨by simpa using hs, Or.inl h0⟩
      · rename_i h0
        split
        · rename_i hpos
          refine (Spares.expireJob _ _ fun hm => ?_).durable hdone
          exact hex hm ⟨by simpa using hs, Or.inr ⟨hpos, hr.resolve_left h0⟩⟩
        · exact hdone
    · exact hdone

end Operations

/-! ## Enqueuing -/

section Enqueuing

variable {env : Env} {q : Queue} {w : World}

/-- `enqueue_job` leaves the job queued for good when its record had no deadline before. -/
theorem durable_enqueueJob {job : JobModel} {atFront : Bool} {q' : Queue}
    (hq : q'.isAsync = true) (hd : w.jobs.deadline n = none)
    (hl : job.name = n → w.loadable n ∨ job.saveAll = true)
    (he : .enqueued q.name n ∈ ((q'.enqueueJob env job atFront).run w).trace) :
    Durable q.name n ((q'.enqueueJob env job atFront).exec w) := by
  cases hs : job.serializable with
  | false =>
      rw [Queue.run_enqueueJob_error env q' hs atFront w] at he
      cases he
  | true =>
      have hrun := Queue.run_enqueueJob env hq hs atFront w
      rw [hrun, List.mem_singleton, Event.enqueued.injEq] at he
      obtain ⟨hname, rfl⟩ := he
      rw [Prog.exec_eq_of_run hrun]
      have hload : (w.saveJob (Queue.enqueuedModel job w.now) false).loadable job.name := by
        exact World.loadable_saveJob ((hl rfl).imp_right fun h => ⟨rfl, Or.inr h⟩)
      refine ⟨(World.inRegistry_zadd ..).2 (Or.inl ⟨hname, rfl, rfl⟩), hload, ?_⟩
      cases hd' : (w.saveJob (Queue.enqueuedModel job w.now) false).jobs.deadline job.name with
      | none => exact hd'
      | some d =>
          rw [World.deadline_of_saveJob hd'] at hd
          cases hd

theorem durable_create {q' : Queue} (hq : q'.isAsync = true) {a : JobArgs}
    {when' : Queue.When} {atFront : Bool} (hd : w.jobs.deadline n = none)
    (he : .enqueued q.name n ∈ ((q'.createAndEnqueueJob env a when' atFront).run w).trace) :
    Durable q.name n ((q'.createAndEnqueueJob env a when' atFront).exec w) := by
  rw [Queue.run_createAndEnqueueJob] at he
  rw [Queue.exec_createAndEnqueueJob]
  cases hc : JobModel.createError env a w with
  | some x =>
      rw [hc] at he
      cases he
  | none =>
      rw [hc] at he
      have he' := (List.mem_cons.1 he).resolve_left (by simp)
      have hser := JobModel.serializable_of_createError hc q'.name (Queue.statusFor when') w.now
      cases when' with
      | none =>
          -- `create` has written the whole record
          have hd' : (w.saveJob (JobModel.fresh env a q'.name .queued w.now)
              false).jobs.deadline n = none := by
            cases hd' : (w.saveJob (JobModel.fresh env a q'.name .queued w.now)
              false).jobs.deadline n with
            | none => rfl
            | some d =>
                rw [World.deadline_of_saveJob hd'] at hd
                cases hd
          refine durable_enqueueJob hq hd' (fun hname => Or.inl ?_) he'
          have hload : (w.saveJob (JobModel.fresh env a q'.name .queued w.now) false).loadable
              (JobModel.fresh env a q'.name .queued w.now).name :=
            World.loadable_saveJob (Or.inr ⟨rfl, Or.inr rfl⟩)
          exact hname ▸ hload
      | datetime t =>
          have hser' : (JobModel.fresh env a q'.name (Queue.statusFor (.datetime t))
              w.now).saved.serializable = true := hser
          rw [Queue.run_placeJob_datetime env q' hser' t atFront] at he'
          cases he'
      | other => cases he'

theorem durable_requeue (hU : UserCode env (Spares q.name n)) {q' : Queue}
    (hq : q'.isAsync = true) {names : List JobName} {atFront : Bool} (hp : Plain n w)
    (he : .enqueued q.name n ∈ ((enqueueMultipleJobs env q' names atFront).run w).trace) :
    Durable q.name n ((enqueueMultipleJobs env q' names atFront).exec w) := by
  -- once the event has happened, the name is in the queue
  have hsteps : (enqueueMultipleJobs env q' names atFront).Steps (Spares q.name n) fun _ => True :=
    enqueueMultipleJobs_steps hU atFront (Or.inl hq)
  have htriple := hsteps.triple (S := Side.alone World Event)
    (I := fun c => Plain n c.1 ∧ (.enqueued q.name n ∈ c.2 → c.1.inRegistry q.name .queued n))
    (X := fun _ c => Plain n c.1 ∧ (.enqueued q.name n ∈ c.2 →
      c.1.inRegistry q.name .queued n))
    (Side.alone_stable _) (fun _ _ h => h) (fun s t s' es h hs => ⟨trivial, hs.plain h.1, ?_⟩)
  · have hend := Side.Triple.alone_exec (htriple.mono (fun _ h => h) (fun _ _ h => h.1)
      (fun _ _ h => h)) (s := w) ⟨hp, fun h => by cases h⟩
    exact ⟨hend.2 he, hend.1⟩
  · intro hmem
    rcases List.mem_append.1 hmem with hmem | hmem
    · exact hs.queued (h.2 hmem)
    · rw [List.mem_map] at hmem
      obtain ⟨e, he, heq⟩ := hmem
      exact hs.enqueued (heq ▸ he)

end Enqueuing

/-! ## Runs -/

/-- The job is not dequeued, canceled, deleted or cleared by the operation, nor run at once by a
queue without workers; `job_action`, which deletes it and enqueues it again, is not counted. -/
def Untouched (env : Env) (n : JobName) (w : World) : Op → Prop
  | .create q a _ _ => q.isAsync = true ∨ ∀ t, JobModel.nameFor a q.name t ≠ n
  | .enqueue q job _ => q.isAsync = true ∨ job.name ≠ n
  | .requeue q names _ => q.isAsync = true ∨ n ∉ names
  | .actionEnqueue q job => job.name = n → q.isAsync = true ∧ job.serializable = true
  | .start queues timeout worker fuel =>
      ∀ q, .popped q n ∉ Op.events env w (.start queues timeout worker fuel)
  | .cancel _ m => m ≠ n
  | .delete _ m _ => m ≠ n
  | .clear q k => ¬ w.inRegistry q.name k n
  | _ => True

/-- The operation is not the end of an execution of the job by a worker that limits the life of
its record. -/
def NoExpiry (n : JobName) : Op → Prop
  | .finish _ job v => job.name = n → ¬ Expires job v
  | _ => True

theorem Durable.actionEnqueue {env : Env} {q : QueueName} {w : World}
    (hU : UserCode env (Spares q n)) {q' : Queue} {job : JobModel} (h : Durable q n w)
    (hun : job.name = n → q'.isAsync = true ∧ job.serializable = true) :
    Durable q n ((jobActionEnqueue env q' job).exec w) := by
  show Durable q n ((q'.deleteJob env job.name false >>= fun _ =>
    q'.enqueueJob env job false >>= fun _ => pure ()).exec w)
  by_cases hname : job.name = n
  · -- the job is taken out of all registries of `q'`, and put back into its queue
    obtain ⟨hq, hs⟩ := hun hname
    have hdel := Queue.run_deleteJob env q' job.name false w
    rw [Prog.exec_bind, hdel]
    dsimp only
    rw [exec_ignore, Prog.exec_eq_of_run hdel,
      Prog.exec_eq_of_run (Queue.run_enqueueJob env hq hs false _)]
    have hplain : Plain n (q'.removeFromAll job.name w) := h.2
    have hsaved := (Spares.saveJob (q := q) (q'.removeFromAll job.name w)
      (Queue.enqueuedModel job w.now) false).plain hplain
    refine ⟨?_, hsaved⟩
    by_cases hq' : q = q'.name
    · exact (World.inRegistry_zadd ..).2 (Or.inl ⟨hq', rfl, hname.symm⟩)
    · refine (World.inRegistry_zadd ..).2 (Or.inr ?_)
      refine (World.inRegistry_zrem ..).2 ⟨fun h' => hq' h'.1, ?_⟩
      show (q'.removeFromAll job.name w).inRegistry q .queued n
      simp only [Queue.removeFromAll, Queue.removeFromRegistries, World.inRegistry_zrem]
      simp [hq', h.1]
  · refine Prog.exec_bind_keeps (h.of_steps (deleteJob_steps q' false hname)) fun _ _ => ?_
    rw [exec_ignore]
    exact (h.of_steps (deleteJob_steps q' false hname)).of_steps
      (enqueueJob_steps hU false (Or.inr hname))

/-- One operation keeps the job. -/
theorem Durable.step {env : Env} {q : QueueName} {w : World} {op : Op}
    (hU : UserCode env (Spares q n)) (h : Durable q n w) (hun : Untouched env n w op)
    (hex : NoExpiry n op) : Durable q n (op.step env w) := by
  cases op with
  | tick d => exact (Spares.advance w d).durable h
  | create q' a when' atFront =>
      rw [Op.step_create]
      exact h.of_steps (createAndEnqueueJob_steps hU when' atFront hun)
  | enqueue q' job atFront =>
      rw [Op.step_enqueue]
      exact h.of_steps (enqueueJob_steps hU atFront hun)
  | requeue q' names atFront => exact h.of_steps (enqueueMultipleJobs_steps hU atFront hun)
  | actionEnqueue q' job => exact h.actionEnqueue hU hun
  | start queues timeout worker fuel => exact h.start hun
  | prepare q' job worker =>
      rw [Op.step_prepare]
      exact h.of_steps (prepareForExecution_steps q' job worker)
  | success q' job v ttl resultTtl =>
      rw [Op.step_success]
      exact h.of_steps (jobHandleSuccess_steps q' job v ttl resultTtl)
  | finish q' job v => exact h.finish hex
  | failure q' status job s =>
      rw [Op.step_failure]
      exact h.of_steps (jobHandleFailure_steps q' status job s)
  | cancel q' m => exact h.of_steps (cancelJob_steps q' hun)
  | delete q' m e => exact h.of_steps (deleteJob_steps q' e hun)
  | clean q' t => exact h.clean hU
  | count q' =>
      rw [Op.step_count]
      exact h.of_steps (count_steps q')
  | list q' =>
      rw [Op.step_list]
      exact h.of_steps (getAllJobNames_steps q')
  | clear q' k => exact h.clear hun

/-- The operation enqueues its jobs on a queue with workers, in a world where the record of the job
`n` has no deadline and is complete, or will be after the operation. -/
def Lasting (n : JobName) (w : World) : Op → Prop
  | .create q _ _ _ => q.isAsync = true ∧ w.jobs.deadline n = none
  | .enqueue q job _ => q.isAsync = true ∧ w.jobs.deadline n = none ∧
      (w.loadable n ∨ job.saveAll = true)
  | .requeue q _ _ => q.isAsync = true ∧ w.jobs.deadline n = none ∧ w.loadable n
  | .actionEnqueue q job => q.isAsync = true ∧ w.jobs.deadline n = none ∧
      (w.loadable n ∨ job.saveAll = true)
  | _ => False

theorem durable_of_enqueued {env : Env} {q : Queue} {w : World} {op : Op}
    (hU : UserCode env (Spares q.name n)) (hl : Lasting n w op)
    (he : .enqueued q.name n ∈ op.events env w) : Durable q.name n (op.step env w) := by
  cases op with
  | create q' a when' atFront =>
      rw [Op.step_create]
      exact durable_create hl.1 hl.2 (trace_ignore _ w ▸ he)
  | enqueue q' job atFront =>
      rw [Op.step_enqueue]
      exact durable_enqueueJob hl.1 hl.2.1 (fun _ => hl.2.2) (trace_ignore _ w ▸ he)
  | requeue q' names atFront => exact durable_requeue hU hl.1 ⟨hl.2.2, hl.2.1⟩ he
  | actionEnqueue q' job =>
      have hdel := Queue.run_deleteJob env q' job.name false w
      have he' : .enqueued q.name n ∈ ((q'.enqueueJob env job false).run
          (q'.removeFromAll job.name w)).trace := by
        have hrun : Op.events env w (.actionEnqueue q' job)
            = ((q'.enqueueJob env job false).run (q'.removeFromAll job.name w)).trace := by
          show ((q'.deleteJob env job.name false >>= fun _ =>
            q'.enqueueJob env job false >>= fun _ => pure ()).run w).trace = _
          rw [Prog.run_bind, hdel, Prog.Outcome.andThen_ok, List.nil_append]
          exact trace_ignore _ _
        exact hrun ▸ he
      show Durable q.name n ((q'.deleteJob env job.name false >>= fun _ =>
        q'.enqueueJob env job false >>= fun _ => pure ()).exec w)
      rw [Prog.exec_bind, hdel]
      dsimp only
      rw [exec_ignore, Prog.exec_eq_of_run hdel]
      exact durable_enqueueJob hl.1 hl.2.1 (fun _ => hl.2.2) he'
  | tick => exact hl.elim
  | start => exact hl.elim
  | prepare => exact hl.elim
  | success => exact hl.elim
  | finish => exact hl.elim
  | failure => exact hl.elim
  | cancel => exact hl.elim
  | delete => exact hl.elim
  | clean => exact hl.elim
  | count => exact hl.elim
  | list => exact hl.elim
  | clear => exact hl.elim

/-- **An enqueued job is kept.** Let an operation enqueue the job when its record is stored without
a deadline. Then in every run that does not touch the job, and in which no earlier execution of
it ends with `expire`, the job is at all times queued and stored. -/
theorem kept_after_enqueue {env : Env} {q : Queue} {n : JobName}
    (hU : UserCode env (Spares q.name n)) {w : World} {op : Op} (hl : Lasting n w op)
    (he : .enqueued q.name n ∈ op.events env w) {l : List Op}
    (hrun : Run.Meets (Op.step env) (fun w op => Untouched env n w op ∧ NoExpiry n op)
      (op.step env w) l) :
    Run.Along (Op.step env) (Kept q.name n) (op.step env w) l := by
  have hdurable : Run.Along (Op.step env) (Durable q.name n) (op.step env w) l :=
    Run.along_of_step (fun _ _ h hop => h.step hU hop.1 hop.2) (durable_of_enqueued hU hl he) hrun
  exact hdurable.mono fun _ h => h.kept

/-- A job that is enqueued and left alone for a year, while its queue is read and cleaned. -/
theorem sample_kept_after_enqueue :
    Run.Along (Op.step Sample.env) (Kept Sample.queue.name "a")
      ((Op.enqueue Sample.queue (Sample.job "a") false).step Sample.env (Sample.worldWith ["a"]))
      [.tick 31536000000000, .count Sample.queue, .clean Sample.queue none] := by
  have hl : Lasting "a" (Sample.worldWith ["a"]) (.enqueue Sample.queue (Sample.job "a") false) :=
    ⟨rfl, rfl, Or.inr rfl⟩
  exact kept_after_enqueue (Sample.userCode _) hl (by decide)
    ⟨⟨trivial, trivial⟩, ⟨trivial, trivial⟩, ⟨trivial, trivial⟩, trivial⟩

/-- The world after the job `a` was created, dequeued and executed by a worker. -/
def finishedWorld : World :=
  Run.last (Op.step Sample.env) (World.init 0)
    [.create Sample.queue { Sample.args "ok" with name := some "a" } .none false,
      .start [Sample.queue] none "w" 1, .finish Sample.queue (Sample.job "a") .none]

/-- The finished job is put back into the queue, and eleven minutes pass: its record is gone. -/
theorem requeued_record_expires :
    .enqueued Sample.queue.name "a" ∈
        (Op.requeue Sample.queue ["a"] false).events Sample.env finishedWorld ∧
      ¬ Run.Along (Op.step Sample.env) (Kept Sample.queue.name "a")
        ((Op.requeue Sample.queue ["a"] false).step Sample.env finishedWorld)
        [.tick 660000000] := by
  refine ⟨by decide, fun h => ?_⟩
  have hgone : (Op.step Sample.env ((Op.requeue Sample.queue ["a"] false).step Sample.env
      finishedWorld) (.tick 660000000)).jobExists "a" = false := by decide
  have hlast := h.last.2.jobExists
  rw [show Run.last (Op.step Sample.env) _ [Op.tick 660000000] = Op.step Sample.env _
    (.tick 660000000) from rfl, hgone] at hlast
  cases hlast

end DailyScheduler.QueuedJob
