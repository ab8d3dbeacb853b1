import DailyScheduler.Concurrency.Dequeue
import DailyScheduler.Execution.Performs
import DailyScheduler.Lib.Run
import DailyScheduler.Lib.Walks
import DailyScheduler.Model.Operations
import DailyScheduler.Model.Sample

set_option autoImplicit false

/-! # The lifecycle of a job

`JobStatus` documents the lifecycle

    scheduled -> queued -> (canceled | started -> (finished | failed | stopped))

No operation but `cancel_job` looks at the status before it writes one, so a status follows the
lifecycle as long as each operation finds the status that its author expected. That a name comes
out of the scheduled or queued registry with the right status is an invariant (`Placed`); the
other expectations are conditions on the state before the operation (`Orderly`).
-/

namespace DailyScheduler.Lifecycle

open AtomicProg

/-- The edges of the documented lifecycle. -/
inductive Next : JobStatus → JobStatus → Prop where
  | enqueue : Next .scheduled .queued
  | cancel : Next .queued .canceled
  | start : Next .queued .started
  | finish : Next .started .finished
  | fail : Next .started .failed
  | stop : Next .started .stopped

/-- A change of the stored status that follows the lifecycle. A new record is scheduled or queued;
a record may go. -/
inductive Change : Option JobStatus → Option JobStatus → Prop where
  | same (s : Option JobStatus) : Change s s
  | gone (s : Option JobStatus) : Change s none
  | scheduled : Change none (some .scheduled)
  | queued : Change none (some .queued)
  | next {s s' : JobStatus} (h : Next s s') : Change (some s) (some s')

/-- The step changes the status of the job `n` as the lifecycle allows. -/
def Follows (n : JobName) (w w' : World) : Prop := Change (w.status n) (w'.status n)

/-- What the documentation says of a step: the status follows the lifecycle, a final status does not
change, and a job is marked stopped only when it was started. -/
structure Documented (n : JobName) (w w' : World) : Prop where
  follows : Follows n w w'
  final : ∀ s ∈ [JobStatus.canceled, .finished, .failed, .stopped], w.status n = some s →
    w'.status n = some s ∨ w'.status n = none
  stopped : w'.status n = some .stopped → w.status n = some .started ∨ w.status n = some .stopped

theorem Follows.documented {n : JobName} {w w' : World} (h : Follows n w w') :
    Documented n w w' where
  follows := h
  final := by
    intro s hs hstatus
    have hchange : Change (some s) (w'.status n) := hstatus ▸ h
    generalize w'.status n = s' at hchange
    cases hchange with
    | same => exact Or.inl rfl
    | gone => exact Or.inr rfl
    | next h => cases h <;> simp at hs
  stopped := by
    intro hstatus
    have hchange : Change (w.status n) (some .stopped) := hstatus ▸ h
    generalize w.status n = s at hchange
    cases hchange with
    | same => exact Or.inr rfl
    | next h =>
        cases h
        exact Or.inl rfl

/-! ## The invariant -/

/-- The registries of the jobs that wait to be started. -/
def waiting : List RegistryKind := [.scheduled, .queued]

/-- The job is in no registry of waiting jobs. -/
def Unplaced (n : JobName) (w : World) : Prop := ∀ q, ∀ k ∈ waiting, ¬ w.inRegistry q k n

/-- A waiting job has the status of its registry, or no record, and waits in one place. -/
structure Placed (n : JobName) (w : World) : Prop where
  scheduled : ∀ q, w.inRegistry q .scheduled n →
    w.status n = none ∨ w.status n = some .scheduled
  queued : ∀ q, w.inRegistry q .queued n → w.status n = none ∨ w.status n = some .queued
  once : ∀ q k q' k', k ∈ waiting → k' ∈ waiting → w.inRegistry q k n → w.inRegistry q' k' n →
    q = q' ∧ k = k'

/-- The job has the status and does not wait. -/
structure At (n : JobName) (s : Option JobStatus) (w : World) : Prop where
  status : w.status n = s
  unplaced : Unplaced n w

theorem Unplaced.placed {n : JobName} {w : World} (h : Unplaced n w) : Placed n w where
  scheduled := fun q hq => absurd hq (h q _ (by simp [waiting]))
  queued := fun q hq => absurd hq (h q _ (by simp [waiting]))
  once := fun q k _ _ hk _ hq _ => absurd hq (h q k hk)

theorem At.placed {n : JobName} {s : Option JobStatus} {w : World} (h : At n s w) : Placed n w :=
  h.unplaced.placed

/-- A job that has left the waiting states does not wait. -/
theorem Placed.at_of_status {n : JobName} {w : World} {s : JobStatus} (h : Placed n w)
    (hs : w.status n = some s) (h₁ : s ≠ .scheduled) (h₂ : s ≠ .queued) : At n (some s) w where
  status := hs
  unplaced := by
    intro q k hk hq
    simp only [waiting, List.mem_cons, List.not_mem_nil, or_false] at hk
    rcases hk with rfl | rfl
    · rcases h.scheduled q hq with h' | h' <;> rw [hs] at h'
      · cases h'
      · exact h₁ (Option.some.inj h')
    · rcases h.queued q hq with h' | h' <;> rw [hs] at h'
      · cases h'
      · exact h₂ (Option.some.inj h')

/-! ## Steps that do not concern the job -/

/-- The step leaves the status of the job, and puts it into no registry of waiting jobs. -/
structure Quiet (n : JobName) (w w' : World) : Prop where
  status : w'.status n = w.status n
  waiting : ∀ q, ∀ k ∈ waiting, w'.inRegistry q k n → w.inRegistry q k n

section Quiet

variable {n m : JobName} {w w' : World}

theorem Quiet.refl (w : World) : Quiet n w w := ⟨rfl, fun _ _ _ => id⟩

theorem Quiet.follows (h : Quiet n w w') : Follows n w w' := by
  unfold Follows
  rw [h.status]
  exact .same _

theorem Quiet.placed (h : Quiet n w w') (hw : Placed n w) : Placed n w' where
  scheduled := fun q hq => by
    rw [h.status]
    exact hw.scheduled q (h.waiting q _ (by simp [Lifecycle.waiting]) hq)
  queued := fun q hq => by
    rw [h.status]
    exact hw.queued q (h.waiting q _ (by simp [Lifecycle.waiting]) hq)
  once := fun q k q' k' hk hk' hq hq' =>
    hw.once q k q' k' hk hk' (h.waiting q k hk hq) (h.waiting q' k' hk' hq')

theorem Quiet.at (h : Quiet n w w') {s : Option JobStatus} (hw : At n s w) : At n s w' where
  status := h.status.trans hw.status
  unplaced := fun q k hk hq => hw.unplaced q k hk (h.waiting q k hk hq)

theorem quiet_of_eq (hjobs : w'.jobs = w.jobs) (hreg : w'.registry = w.registry) :
    Quiet n w w' := by
  refine ⟨?_, fun q k _ hq => ?_⟩
  · unfold World.status
    rw [hjobs]
  · rw [World.inRegistry_iff, hreg] at hq
    exact hq

theorem quiet_zrem (q : QueueName) (k : RegistryKind) : Quiet n w (w.zrem q k m) := by
  refine ⟨rfl, fun q' k' _ hq => ?_⟩
  rw [World.inRegistry_zrem] at hq
  exact hq.2

theorem quiet_zadd (q : QueueName) {k : RegistryKind} (s : Int) (h : m ≠ n ∨ k ∉ waiting) :
    Quiet n w (w.zadd q k m s) := by
  refine ⟨rfl, fun q' k' hk' hq => ?_⟩
  rw [World.inRegistry_zadd] at hq
  refine hq.resolve_left fun hnew => ?_
  obtain ⟨-, rfl, rfl⟩ := hnew
  exact h.elim (fun hne => hne rfl) fun hnot => hnot hk'

theorem quiet_zremrangebyscore (q : QueueName) (k : RegistryKind) (lo hi : Int) :
    Quiet n w (w.zremrangebyscore q k lo hi) :=
  ⟨rfl, fun _ _ _ hq => World.inRegistry_of_zremrangebyscore hq⟩

/-- A save of another job, or of this one with the status it has. -/
theorem quiet_saveJob {j : JobModel} (sa : Bool)
    (h : j.name ≠ n ∨ w.status n = some j.status ∨ j.written sa .status = false) :
    Quiet n w (w.saveJob j sa) := by
  refine ⟨?_, fun _ _ _ => id⟩
  rw [World.status_saveJob]
  split
  · rename_i hwritten
    rcases h with h | h | h
    · exact absurd hwritten.1.symm h
    · exact h.symm
    · rw [h] at hwritten
      cases hwritten.2
  · rfl

theorem quiet_persistJob : Quiet n w (w.persistJob m) := by
  refine ⟨?_, fun _ _ _ => id⟩
  unfold World.status World.persistJob
  rw [TtlMap.find?_persist]

theorem quiet_of_execStep {q : QueueName} {es : List Event} (h : ExecStep q m w w' es)
    (hm : m ≠ n) : Quiet n w w' := by
  cases h with
  | add k s hk =>
      refine quiet_zadd q s (Or.inr ?_)
      rcases hk with rfl | rfl | rfl <;> simp [waiting]
  | remove => exact quiet_zrem q .active
  | save j sa hj => exact quiet_saveJob sa (Or.inl (hj ▸ hm))
  | persist => exact quiet_persistJob
  | _ => exact quiet_of_eq rfl rfl

/-- The step may also end the life of the record. -/
structure Shrinks (n : JobName) (w w' : World) : Prop where
  status : w'.status n = w.status n ∨ w'.status n = none
  waiting : ∀ q, ∀ k ∈ waiting, w'.inRegistry q k n → w.inRegistry q k n

theorem Quiet.shrinks (h : Quiet n w w') : Shrinks n w w' := ⟨Or.inl h.status, h.waiting⟩

theorem Shrinks.follows (h : Shrinks n w w') : Follows n w w' := by
  unfold Follows
  rcases h.status with hs | hs <;> rw [hs]
  · exact .same _
  · exact .gone _

theorem Shrinks.placed (h : Shrinks n w w') (hw : Placed n w) : Placed n w' where
  scheduled := fun q hq => by
    rcases h.status with hs | hs
    · rw [hs]
      exact hw.scheduled q (h.waiting q _ (by simp [Lifecycle.waiting]) hq)
    · exact Or.inl hs
  queued := fun q hq => by
    rcases h.status with hs | hs
    · rw [hs]
      exact hw.queued q (h.waiting q _ (by simp [Lifecycle.waiting]) hq)
    · exact Or.inl hs
  once := fun q k q' k' hk hk' hq hq' =>
    hw.once q k q' k' hk hk' (h.waiting q k hk hq) (h.waiting q' k' hk' hq')

/-- The record may expire, or be deleted. -/
theorem shrinks_of_find? (hfind : w'.jobs.find? n = w.jobs.find? n ∨ w'.jobs.find? n = none)
    (hreg : w'.registry = w.registry) : Shrinks n w w' := by
  refine ⟨?_, fun q k _ hq => ?_⟩
  · unfold World.status
    rcases hfind with h | h <;> rw [h]
    · exact Or.inl rfl
    · exact Or.inr rfl
  · rw [World.inRegistry_iff, hreg] at hq
    exact hq

theorem shrinks_deleteJob : Shrinks n w (w.deleteJob m) := by
  refine shrinks_of_find? ?_ rfl
  unfold World.deleteJob
  rw [TtlMap.find?_erase]
  split
  · exact Or.inr rfl
  · exact Or.inl rfl

theorem shrinks_expireJob (d : Int) : Shrinks n w (w.expireJob m d) := by
  refine shrinks_of_find? (Or.inl ?_) rfl
  unfold World.expireJob
  rw [TtlMap.find?_expireAt]

theorem shrinks_advance (d : Nat) : Shrinks n w (w.advance d) := by
  refine shrinks_of_find? ?_ rfl
  unfold World.advance
  rw [TtlMap.find?_purge]
  split
  · exact Or.inl rfl
  · exact Or.inr rfl

theorem shrinks_of_expireStep {es : List Event} (h : ExpireStep m w w' es) : Shrinks n w w' := by
  cases h with
  | expire d => exact shrinks_expireJob d
  | delete => exact shrinks_deleteJob

end Quiet

/-! ## Programs that do not concern the job -/

/-- A quiet step, whatever its events. -/
abbrev QuietStep (n : JobName) : World → World → List Event → Prop := fun w w' _ => Quiet n w w'

abbrev ShrinkStep (n : JobName) : World → World → List Event → Prop := fun w w' _ => Shrinks n w w'

/-- An assertion that quiet steps keep. -/
def Lasting (n : JobName) (P : World → Prop) : Prop := ∀ w w', Quiet n w w' → P w → P w'

theorem lasting_placed (n : JobName) : Lasting n (Placed n) := fun _ _ h => h.placed

theorem lasting_at (n : JobName) (s : Option JobStatus) : Lasting n (At n s) := fun _ _ h => h.at

/-- The triples of this file: every step follows the lifecycle of the job, and an exception leaves
the invariant. -/
abbrev Proper (n : JobName) {α : Type} (P : World → Prop) (p : Py α) (Q : α → World → Prop) :
    Prop :=
  p.Steady (Follows n) P Q fun _ => Placed n

section Programs

variable {env : Env} {n m : JobName} {α : Type} {P : World → Prop}

/-- A program of quiet steps keeps every lasting assertion that implies the invariant. -/
theorem proper_of_quiet {p : Py α} {Q : α → Prop} (h : p.Steps (QuietStep n) Q)
    (hP : Lasting n P) (hplaced : ∀ w, P w → Placed n w) :
    Proper n P p fun a w => P w ∧ Q a := by
  refine (Prog.Steady.of_steps h fun w w' _ hq hw => ⟨hq.follows, hP w w' hq hw⟩).mono
    (fun _ => id) (fun _ _ => id) fun _ w => hplaced w

theorem proper_of_shrinking {p : Py α} {Q : α → Prop} (h : p.Steps (ShrinkStep n) Q) :
    Proper n (Placed n) p fun _ => Placed n :=
  (Prog.Steady.of_steps h fun _ _ _ hq hw => ⟨hq.follows, hq.placed hw⟩).mono
    (fun _ => id) (fun _ _ hw => hw.1) fun _ _ => id

theorem follows_refl (w : World) : Follows n w w := .same _

theorem quiet_read {β : Type} (g : World → β) :
    (Prog.read g : Py β).Steps (QuietStep n) fun _ => True :=
  fun w => ⟨.refl w, trivial⟩

theorem quiet_write {f : World → World} (h : ∀ w, Quiet n w (f w)) :
    (Prog.write f : Py Unit).Steps (QuietStep n) fun _ => True :=
  Prog.Steps.write h

theorem quiet_timestampOrNow (t : Option Int) :
    (timestampOrNow t).Steps (QuietStep n) fun _ => True := by
  cases t with
  | none => exact quiet_read _
  | some t => exact Prog.Steps.ite (fun _ => quiet_read _) fun _ => trivial

theorem quiet_cleanup (r : Registry) (t : Option Int) :
    (r.cleanup t).Steps (QuietStep n) fun _ => True := by
  refine Prog.Steps.ite (fun _ => ?_) fun _ => trivial
  exact (quiet_timestampOrNow t).bind fun _ _ => quiet_write fun _ => quiet_zremrangebyscore _ _ _ _

theorem quiet_allWithTimestamps (r : Registry) (i j : Int) :
    (r.allWithTimestamps i j).Steps (QuietStep n) fun _ => True :=
  (quiet_cleanup r none).bind fun _ _ => quiet_read _

/-- The execution of another job. -/
theorem quiet_of_exec {q : QueueName} {p : Py α} {Q : α → Prop}
    (h : p.Steps (ExecOr q m (QuietStep n)) Q) (hm : m ≠ n) : p.Steps (QuietStep n) Q :=
  h.mono (fun _ _ _ hs => hs.elim (fun hs => quiet_of_execStep hs hm) id) fun _ => id

theorem quiet_enqueueScore (q : Queue) (atFront : Bool) :
    (q.enqueueScore atFront).Steps (QuietStep n) fun _ => True := by
  refine Prog.Steps.ite (fun _ => quiet_read _) fun _ => ?_
  refine Prog.Steps.bind (Q := fun _ => True) ?_ fun last _ => quiet_timestampOrNow last
  exact (quiet_allWithTimestamps _ _ _).bind fun _ _ => trivial

/-- `expire` of another job. -/
theorem quiet_expire {j : JobModel} (hj : j.name ≠ n) (ttl : Int) :
    (j.expire ttl).Steps (QuietStep n) fun j' => j'.name = j.name := by
  refine (expire_steps rfl ttl).mono (fun w w' _ hs => ?_) fun _ => id
  cases hs with
  | expire d =>
      refine ⟨?_, fun _ _ _ => id⟩
      unfold World.status World.expireJob
      rw [TtlMap.find?_expireAt]
  | delete =>
      refine ⟨?_, fun _ _ _ => id⟩
      unfold World.status World.deleteJob
      rw [TtlMap.find?_erase, if_neg fun h => hj h.symm]

/-- `enqueue_job` of another job, with its execution on a queue without workers. -/
theorem quiet_enqueueJob (hU : UserCode env (QuietStep n)) (q : Queue) {j : JobModel}
    (hj : j.name ≠ n) (atFront : Bool) :
    (q.enqueueJob env j atFront).Steps (QuietStep n) fun _ => True := by
  refine (quiet_read _).bind fun now _ => ?_
  have hsave : (After.get ((Queue.enqueuedModel j now).save false)).Steps (QuietStep n)
      fun r => r.1.name = j.name := by
    have hsteps : ((Queue.enqueuedModel j now).save false).Steps
        (ExecOr q.name j.name (QuietStep n)) (Named j.name) := save_steps false rfl
    exact After.get_steps (quiet_of_exec hsteps hj) fun _ _ h => h
  refine hsave.bind fun r hr => ?_
  obtain ⟨j', u⟩ := r
  have hj' : j'.name ≠ n := by
    rw [show j'.name = j.name from hr]
    exact hj
  refine Prog.Steps.ite (fun _ => ?_) fun _ => ?_
  · refine (quiet_enqueueScore q atFront).bind fun score _ => ?_
    refine Prog.Steps.bind (Q := fun _ => True) (Prog.Steps.command fun w => ?_) fun _ _ => trivial
    have hremove : Quiet n w (w.zrem q.name .scheduled j'.name) := quiet_zrem _ _
    have hadd : Quiet n (w.zrem q.name .scheduled j'.name)
        ((w.zrem q.name .scheduled j'.name).zadd q.name .queued j'.name score) :=
      quiet_zadd _ _ (Or.inl hj')
    exact ⟨hadd.status.trans hremove.status,
      fun q k hk h => hremove.waiting q k hk (hadd.waiting q k hk h)⟩
  · have hsteps : (q.runSync env j').Steps (ExecOr q.name j'.name (QuietStep n)) (Named j'.name) :=
      runSync_steps hU (fun w => Quiet.refl w) rfl
    have hsync := quiet_of_exec hsteps hj'
    refine (After.get_steps (Q := fun r => r.1.name = j'.name) hsync fun _ _ h => h).bind
      fun r hr => ?_
    have hr' : r.1.name ≠ n := by
      rw [show r.1.name = j'.name from hr]
      exact hj'
    exact (quiet_expire hr' _).of_true

end Programs

/-! ## Executing the job -/

/-- The function, and a coroutine it returns, return only values that can be encoded. -/
def ReturnsEncodable (env : Env) (name : String) : Prop :=
  ∀ f job, env.callableFunc name = .ok f → (f job).Steps (fun _ _ _ => True) fun o =>
    (∀ v, o.val = .ok v → v.encodes = true) ∧
    ∀ p, o.coroutine = some p → p.Steps (fun _ _ _ => True) fun r =>
      ∀ v, r.val = .ok v → v.encodes = true

section Executing

variable {env : Env} {n : JobName} {q : Queue} {j : JobModel}

/-- Storing a result. -/
theorem resultCreate_steady {s : Option JobStatus} (m : JobName) (name : Option WorkerName)
    (type : ResultType) (ttl : Int) (v : PyValue) (exc : Option String) :
    (Result.create m name type ttl v exc).Steady (Follows n) (At n s) (fun _ => At n s)
      (fun _ w => At n s w ∧ ¬ (ttl = 0 ∨ v.encodes = true)) := by
  have hwrite : ∀ f : World → World, (∀ w, Quiet n w (f w)) →
      (Prog.write f : Py Unit).Steady (Follows n) (At n s) (fun _ => At n s)
        (fun _ w => At n s w ∧ ¬ (ttl = 0 ∨ v.encodes = true)) :=
    fun f hf => Prog.Steady.write fun w hw => ⟨(hf w).follows, (hf w).at hw⟩
  refine Prog.Steady.bind (Q := fun _ => At n s)
    (Prog.Steady.read follows_refl fun w hw => hw) fun now => ?_
  refine Prog.Steady.ite (fun _ => hwrite _ fun w => quiet_of_eq rfl rfl) fun httl => ?_
  refine Prog.Steady.ite (fun _ => hwrite _ fun w => quiet_of_eq rfl rfl) fun hv => ?_
  exact Prog.Steady.raise fun w hw => ⟨hw, fun h => h.elim httl hv⟩

/-- What `after_execution` and the methods around it leave: the new status, unless an exception
left the old one. -/
def Left (n : JobName) (s : JobStatus) (r : After Unit) (w : World) : Prop :=
  r.1.name = n ∧ match r.2 with
    | .ok _ => At n (some s) w
    | .error _ => At n (some .started) w

theorem Left.placed {s : JobStatus} {r : After Unit} {w : World} (h : Left n s r w) :
    Placed n w := by
  obtain ⟨j', x | u⟩ := r
  · exact h.2.placed
  · exact h.2.placed

theorem afterExecution_proper (hj : j.name = n) {s : JobStatus} (hs : Next .started s) (ttl : Int)
    {prev new : Registry} (hnew : new.kind ∉ waiting) :
    Proper n (At n (some .started)) (j.afterExecution ttl s prev new) (Left n s) := by
  have hquiet : ∀ {α : Type} {p : Py α}, p.Steps (QuietStep n) (fun _ => True) →
      Proper n (At n (some .started)) p fun _ => At n (some .started) :=
    fun h => (proper_of_quiet h (lasting_at n _) fun _ => At.placed).mono (fun _ => id)
      (fun _ _ hw => hw.1) fun _ _ => id
  refine Prog.Steady.bind (hquiet (quiet_read _)) fun now => ?_
  refine Prog.Steady.bind (hquiet (quiet_write fun _ => quiet_zrem _ _)) fun _ => ?_
  have hadd : (JobModel.addFor new j.name ttl).Steps (QuietStep n) fun _ => True := by
    refine Prog.Steps.ite (fun _ => trivial) fun _ => (quiet_read _).bind fun t _ => ?_
    exact quiet_write fun _ => quiet_zadd _ _ (Or.inr hnew)
  refine Prog.Steady.bind (hquiet hadd) fun _ => ?_
  refine Prog.Steady.ite (fun _ => ?_) fun _ => ?_
  · refine Prog.Steady.bind (Q := fun _ => At n (some s)) (Prog.Steady.write fun w hw => ?_)
      fun _ => Prog.Steady.ret fun w hw => ⟨hj, hw⟩
    have hstatus : (w.saveJob (j.ended s now) false).status n = some s := by
      rw [World.status_saveJob, if_pos]
      · rfl
      · refine ⟨hj.symm, ?_⟩
        simp [JobModel.written, JobModel.ended, JobModel.setStatus, JobModel.setEndedAt,
          JobModel.setLastHeartbeat]
    refine ⟨?_, hstatus, fun q k hk hq => hw.unplaced q k hk hq⟩
    show Change (w.status n) ((w.saveJob (j.ended s now) false).status n)
    rw [hw.status, hstatus]
    exact .next hs
  · exact Prog.Steady.ret fun w hw => ⟨hj, hw⟩

/-- The rule for `After.next`. -/
theorem next_steady {α β : Type} {R : World → World → Prop} {P X : World → Prop}
    {Q : After α → World → Prop} {Q' : After β → World → Prop} {p : Py (After α)}
    {f : JobModel → α → Py (After β)} (hp : p.Steady R P Q fun _ => X)
    (hf : ∀ j a, (f j a).Steady R (Q (j, .ok a)) Q' fun _ => X)
    (hx : ∀ j x w, Q (j, .error x) w → Q' (j, .error x) w) :
    (After.next p f).Steady R P Q' fun _ => X := by
  refine hp.bind fun r => ?_
  obtain ⟨j, x | a⟩ := r
  · exact Prog.Steady.ret (hx j x)
  · exact hf j a

theorem jobHandleSuccess_proper (hj : j.name = n) (v : PyValue) (ttl resultTtl : Int) :
    Proper n (At n (some .started)) (q.jobHandleSuccess j v ttl resultTtl) fun r w =>
      Placed n w ∧ ((resultTtl = 0 ∨ v.encodes = true) → Left n .finished r w) := by
  refine next_steady (afterExecution_proper hj .finish ttl (by simp [waiting,
    Queue.finishedJobRegistry])) (fun j' _ => ?_) fun j x w hw => ⟨hw.placed, fun _ => hw⟩
  refine Prog.Steady.pre (P := fun w => j'.name = n ∧ At n (some .finished) w)
    (Prog.Steady.of_pure fun hname => ?_) fun w hw => hw
  refine Prog.Steady.bind (Prog.Steady.attempt (resultCreate_steady j'.name j'.workerName
    .successful resultTtl v none)) fun r => ?_
  cases r with
  | ok u => exact Prog.Steady.ret fun w hw => ⟨hw.placed, fun _ => ⟨hname, hw⟩⟩
  | error x => exact Prog.Steady.ret fun w hw => ⟨hw.1.placed, fun h => absurd h hw.2⟩

theorem jobHandleFailure_proper (hj : j.name = n) {s : JobStatus} (hs : Next .started s)
    (exc : String) :
    Proper n (At n (some .started)) (q.jobHandleFailure env s j exc) fun r w =>
      r.1.name = n ∧ Placed n w := by
  refine next_steady (afterExecution_proper hj hs _ (by simp [waiting,
    Queue.failedJobRegistry])) (fun j' _ => ?_) fun j x w hw => ⟨hw.1, hw.placed⟩
  refine Prog.Steady.pre (P := fun w => j'.name = n ∧ At n (some s) w)
    (Prog.Steady.of_pure fun hname => ?_) fun w hw => hw
  refine Prog.Steady.bind (Prog.Steady.attempt (resultCreate_steady j'.name j'.workerName
    .failed env.config.DEFAULT_FAILURE_TTL .none (some exc))) fun r => ?_
  cases r with
  | ok u => exact Prog.Steady.ret fun w hw => ⟨hname, hw.placed⟩
  | error x => exact Prog.Steady.ret fun w hw => ⟨hname, hw.1.placed⟩

theorem prepareForExecution_proper (hj : j.name = n) (name : WorkerName) :
    Proper n (At n (some .queued)) (j.prepareForExecution name q.activeJobRegistry) fun r w =>
      r.1.name = n ∧ match r.2 with
        | .ok _ => r.1.status = .started ∧ r.1.successTtl = j.successTtl ∧
            r.1.funcName = j.funcName ∧ At n (some .started) w
        | .error _ => At n (some .queued) w := by
  have hquiet : ∀ {α : Type} {p : Py α}, p.Steps (QuietStep n) (fun _ => True) →
      Proper n (At n (some .queued)) p fun _ => At n (some .queued) :=
    fun h => (proper_of_quiet h (lasting_at n _) fun _ => At.placed).mono (fun _ => id)
      (fun _ _ hw => hw.1) fun _ _ => id
  rw [JobModel.prepareForExecution_eq]
  refine Prog.Steady.bind (hquiet (quiet_read _)) fun now => ?_
  refine Prog.Steady.bind (hquiet (quiet_write fun _ => quiet_zadd _ _ (Or.inr
    (by simp [waiting, Queue.activeJobRegistry])))) fun _ => ?_
  have hname : (j.prepared name now).name = n := by rw [JobModel.prepared_name, hj]
  refine Prog.Steady.ite (fun _ => ?_) fun _ => Prog.Steady.ret fun w hw => ⟨hname, hw⟩
  refine Prog.Steady.bind (Q := fun _ => At n (some .started)) (Prog.Steady.write fun w hw => ?_)
    fun _ => Prog.Steady.ret fun w hw => ⟨?_, ?_, ?_, ?_, hw⟩
  rotate_left
  · rw [JobModel.saved_name, hname]
  · rw [JobModel.saved_status, JobModel.prepared_status]
  · rw [JobModel.saved_successTtl, JobModel.prepared_successTtl]
  · rw [JobModel.saved_funcName, JobModel.prepared_funcName]
  have hstatus : (w.saveJob (j.prepared name now) false).status n = some .started := by
    rw [World.status_saveJob, if_pos]
    · rfl
    · refine ⟨hj.symm, ?_⟩
      simp [JobModel.written, JobModel.prepared, JobModel.setStatus]
  refine ⟨?_, hstatus, fun q k hk hq => hw.unplaced q k hk hq⟩
  show Change (w.status n) ((w.saveJob (j.prepared name now) false).status n)
  rw [hw.status, hstatus]
  exact .next .start

/-- While the job runs, its object is saved with the status that is stored. -/
theorem performs_started (hU : UserCode env (QuietStep n)) (name : String) (ttl : Int) :
    Performs env
      (fun j => j.name = n ∧ j.status = .started ∧ j.successTtl = ttl ∧ j.funcName = name)
      (fun w w' _ => w.status n = some .started → Quiet n w w') where
  saved := fun _ h => h
  metadata := fun _ _ h => h
  same := fun w _ => .refl w
  save := fun w j sa h hw => quiet_saveJob sa (Or.inr (Or.inl (by rw [hw, h.2.1])))
  persist := fun _ _ _ _ => quiet_persistJob
  called := fun w _ _ _ => .refl w
  success := fun w _ _ _ => .refl w
  failure := fun w _ _ _ => .refl w
  user := hU.mono fun _ _ _ h _ => h

/-- What a function is performed to return can be encoded when the function returns only such
values. -/
theorem queuePerformJob_encodes (h : ReturnsEncodable env j.funcName) :
    (queuePerformJob env j).Steps (fun _ _ _ => True) fun r =>
      ∀ v, r.2 = .ok v → v.encodes = true := by
  have hcall : (callFunc env j).Steps (fun _ _ _ => True) fun r => ∀ o, r.2 = .ok o →
      (∀ v, o.val = .ok v → v.encodes = true) ∧
      ∀ p, o.coroutine = some p → p.Steps (fun _ _ _ => True) fun r =>
        ∀ v, r.val = .ok v → v.encodes = true := by
    unfold callFunc
    cases hf : env.callableFunc j.funcName with
    | error x => exact fun o ho => by cases ho
    | ok f =>
        refine (Prog.Steps.emit fun _ => trivial).bind fun _ _ => ?_
        refine Prog.Steps.bind (h f j hf).attempt fun r hr => ?_
        cases r with
        | error x => exact fun o ho => by cases ho
        | ok o =>
            have ho := hr o rfl
            dsimp only
            cases o.val with
            | error x => exact fun o ho => by cases ho
            | ok v => exact fun o' ho' => by cases ho'; exact ho
  have hafter : ∀ j o, (∀ v, o.val = .ok v → v.encodes = true) →
      (∀ p, o.coroutine = some p → p.Steps (fun _ _ _ => True) fun r =>
        ∀ v, r.val = .ok v → v.encodes = true) →
      (afterCall env j o).Steps (fun _ _ _ => True) fun r => ∀ v, r.2 = .ok v → v.encodes = true := by
    intro j o hval hco
    refine After.next_steps (Prog.Steps.any _) (fun j _ _ => ?_) fun _ _ _ v hv => by cases hv
    have hrun : (runCoroutine j o).Steps (fun _ _ _ => True) fun r =>
        ∀ v, r.2 = .ok v → v.encodes = true := by
      unfold runCoroutine
      cases hc : o.coroutine with
      | none => exact hval
      | some p =>
          refine Prog.Steps.bind (hco p hc).attempt fun r hr => ?_
          cases r with
          | error x => exact fun v hv => by cases hv
          | ok r => exact hr r rfl
    refine After.next_steps hrun (fun j v hv => ?_) fun _ _ _ v hv => by cases hv
    refine After.next_steps (Prog.Steps.any _) (fun j _ _ => ?_) fun _ _ _ v hv => by cases hv
    exact fun v' hv' => by cases hv'; exact hv v rfl
  refine Prog.Steps.bind (Prog.Steps.any _) fun _ _ => ?_
  have hbody : (performBody env j).Steps (fun _ _ _ => True) fun r =>
      ∀ v, r.2 = .ok v → v.encodes = true :=
    After.next_steps hcall (fun j o ho => hafter j o (ho o rfl).1 (ho o rfl).2)
      fun _ _ _ v hv => by cases hv
  refine hbody.bind fun r hr => ?_
  obtain ⟨j', x | v⟩ := r
  · refine Prog.Steps.ite (fun _ => ?_) fun _ v hv => by cases hv
    refine After.next_steps (Prog.Steps.any _) (fun j _ _ v hv => by cases hv) fun _ _ _ v hv =>
      by cases hv
  · exact hr

/-- The result of the job can be stored. -/
def Storable (env : Env) (j : JobModel) : Prop :=
  j.successTtl = 0 ∨ ReturnsEncodable env j.funcName

/-- A queue without workers executes the job at once. -/
theorem runSync_proper (hU : UserCode env (QuietStep n)) (hj : j.name = n)
    (hstore : Storable env j) :
    Proper n (At n (some .queued)) (q.runSync env j) fun r w => r.1.name = n ∧ Placed n w := by
  refine next_steady (prepareForExecution_proper hj "sync") (fun j₁ _ => ?_)
    fun _ _ w hw => ⟨hw.1, hw.2.placed⟩
  refine Prog.Steady.pre (P := fun w => (j₁.name = n ∧ j₁.status = .started ∧
      j₁.successTtl = j.successTtl ∧ j₁.funcName = j.funcName) ∧ At n (some .started) w)
    (Prog.Steady.of_pure fun hj₁ => ?_)
    fun w hw => ⟨⟨hw.1, hw.2.1, hw.2.2.1, hw.2.2.2.1⟩, hw.2.2.2.2⟩
  have hvalue : (queuePerformJob env j₁).Steps (fun _ _ _ => True) fun r =>
      ∀ v, r.2 = .ok v → j.successTtl = 0 ∨ v.encodes = true := by
    rcases hstore with h | h
    · exact (Prog.Steps.any _).mono (fun _ _ _ => id) fun _ _ _ _ => Or.inl h
    · have hfunc : ReturnsEncodable env j₁.funcName := by rwa [hj₁.2.2.2]
      exact (queuePerformJob_encodes hfunc).mono (fun _ _ _ => id) fun _ hr v hv =>
        Or.inr (hr v hv)
  have hperform := ((performs_started hU j.funcName j.successTtl).queuePerformJob_steps
    hj₁).and hvalue
  have hrun : Proper n (At n (some .started)) (After.next (queuePerformJob env j₁)
      fun j result => q.jobHandleSuccess j result j.jobInfoTtl j.successTtl)
      (Left n .finished) := by
    refine next_steady (Q := fun r w => At n (some .started) w ∧
        (r.1.name = n ∧ r.1.status = .started ∧ r.1.successTtl = j.successTtl ∧
          r.1.funcName = j.funcName) ∧
        ∀ v, r.2 = .ok v → j.successTtl = 0 ∨ v.encodes = true)
      ((Prog.Steady.of_steps hperform fun w w' _ hs hw => ?_).mono (fun _ => id) (fun _ _ => id)
        fun _ _ hw => hw.placed) (fun j₂ v => ?_) fun _ _ w hw => ⟨hw.2.1.1, hw.1⟩
    · have hquiet : Quiet n w w' := hs.1 hw.status
      exact ⟨hquiet.follows, hquiet.at hw⟩
    · refine Prog.Steady.pre (P := fun w => (j₂.name = n ∧ (j₂.successTtl = 0 ∨ v.encodes = true))
        ∧ At n (some .started) w) (Prog.Steady.of_pure fun hj₂ => ?_) fun w hw =>
          ⟨⟨hw.2.1.1, hw.2.1.2.2.1 ▸ hw.2.2 v rfl⟩, hw.1⟩
      exact (jobHandleSuccess_proper hj₂.1 v _ _).mono (fun _ => id)
        (fun _ _ hw => hw.2 hj₂.2) fun _ _ => id
  refine hrun.bind fun r => ?_
  obtain ⟨j₂, x | u⟩ := r
  · refine Prog.Steady.pre (P := fun w => j₂.name = n ∧ At n (some .started) w)
      (Prog.Steady.of_pure fun hj₂ => ?_) fun w hw => hw
    refine Prog.Steady.ite (fun _ => ?_) fun _ => Prog.Steady.ret fun w hw => ⟨hj₂, hw.placed⟩
    exact jobHandleFailure_proper hj₂ .fail _
  · exact Prog.Steady.ret fun w hw => ⟨hw.1, hw.placed⟩

end Executing

/-! ## Putting the job into a queue -/

/-- The job may be queued: it has not left the waiting states, and waits in no other queue. A queue
without workers executes it at once, so there it must not wait at all. -/
structure Enqueueable (n : JobName) (q : Queue) (w : World) : Prop where
  placed : Placed n w
  status : w.status n = none ∨ w.status n = some .scheduled ∨ w.status n = some .queued
  here : ∀ q', ∀ k ∈ waiting, w.inRegistry q' k n → q' = q.name ∧ q.isAsync = true

section Enqueuing

variable {env : Env} {n : JobName} {q : Queue} {j : JobModel}

theorem Enqueueable.of_unplaced {w : World} (h : Unplaced n w)
    (hs : w.status n = none ∨ w.status n = some .scheduled ∨ w.status n = some .queued) :
    Enqueueable n q w where
  placed := h.placed
  status := hs
  here := fun q' k hk hq => absurd hq (h q' k hk)

/-- The record says that the job is queued; its name is still where it was. -/
structure Enqueuing (n : JobName) (q : Queue) (w : World) : Prop where
  status : w.status n = some .queued
  here : ∀ q', ∀ k ∈ waiting, w.inRegistry q' k n → q' = q.name ∧ q.isAsync = true

theorem enqueueScore_steady {P X} (q : Queue) (atFront : Bool) :
    (q.enqueueScore atFront).Steady (Follows n) P (fun _ => P) X :=
  enqueueScore_triple (S := Side.steady (Follows n)) (Side.steady_stable _ _)
    (fun c _ => follows_refl c.1) q atFront

theorem storable_enqueued (h : Storable env j) (now : Int) :
    Storable env (Queue.enqueuedModel j now).saved := by
  rwa [Storable, JobModel.saved_successTtl, JobModel.saved_funcName,
    Queue.enqueuedModel_successTtl, Queue.enqueuedModel_funcName]

theorem enqueueJob_proper (hU : UserCode env (QuietStep n)) (hj : j.name = n)
    (hstore : q.isAsync = false → Storable env j) (atFront : Bool) :
    Proper n (Enqueueable n q) (q.enqueueJob env j atFront) fun _ => Placed n := by
  refine Prog.Steady.bind (Q := fun _ => Enqueueable n q)
    (Prog.Steady.read follows_refl fun w hw => hw) fun now => ?_
  rw [JobModel.get_save]
  cases hser : (Queue.enqueuedModel j now).serializable with
  | false =>
      rw [if_neg (by simp)]
      refine Prog.Steady.bind (Q := fun _ _ => False) (Prog.Steady.raise ?_) fun _ _ h => h.elim
      exact fun w hw => hw.placed
  | true =>
      rw [if_pos rfl]
      have hsave : Proper n (Enqueueable n q)
          (Prog.write (·.saveJob (Queue.enqueuedModel j now) false) >>= fun _ =>
            Prog.ret ((Queue.enqueuedModel j now).saved, ()))
          fun r w => r.1 = (Queue.enqueuedModel j now).saved ∧ Enqueuing n q w := by
        refine Prog.Steady.bind (Q := fun _ => Enqueuing n q) (Prog.Steady.write fun w hw => ?_)
          fun _ => Prog.Steady.ret fun w hw => ⟨rfl, hw⟩
        have hstatus : (w.saveJob (Queue.enqueuedModel j now) false).status n = some .queued := by
          rw [World.status_saveJob, if_pos]
          · rfl
          · refine ⟨hj.symm, ?_⟩
            simp [JobModel.written, Queue.enqueuedModel, JobModel.setStatus, JobModel.setEnqueuedAt]
        refine ⟨?_, hstatus, hw.here⟩
        show Change (w.status n) ((w.saveJob (Queue.enqueuedModel j now) false).status n)
        rw [hstatus]
        rcases hw.status with h | h | h <;> rw [h]
        · exact .queued
        · exact .next .enqueue
        · exact .same _
      refine Prog.Steady.bind hsave fun r => ?_
      refine Prog.Steady.of_pure fun hr => ?_
      obtain ⟨j', u⟩ := r
      obtain rfl : j' = (Queue.enqueuedModel j now).saved := hr
      have hname : (Queue.enqueuedModel j now).saved.name = n := by
        rw [JobModel.saved_name, Queue.enqueuedModel_name, hj]
      refine Prog.Steady.ite (fun _ => ?_) fun hasync => ?_
      · refine Prog.Steady.bind (enqueueScore_steady q atFront) fun score => ?_
        refine Prog.Steady.bind (Q := fun _ => Placed n) (Prog.Steady.command fun w hw => ?_)
          fun _ => Prog.Steady.ret fun w hw => hw
        -- the name leaves the scheduled registry of the queue in the step that queues it
        have hwhere : ∀ q' k, k ∈ waiting →
            ((w.zrem q.name .scheduled n).zadd q.name .queued n score).inRegistry q' k n →
              q' = q.name ∧ k = .queued := by
          intro q' k hk hq
          rw [World.inRegistry_zadd, World.inRegistry_zrem] at hq
          rcases hq with ⟨rfl, rfl, -⟩ | ⟨hnot, hq⟩
          · exact ⟨rfl, rfl⟩
          · obtain ⟨rfl, -⟩ := hw.here q' k hk hq
            refine ⟨rfl, ?_⟩
            simp only [waiting, List.mem_cons, List.not_mem_nil, or_false] at hk
            exact hk.resolve_left fun hsched => hnot ⟨rfl, hsched, rfl⟩
        rw [hname]
        refine ⟨.same _, ?_, ?_, ?_⟩
        · intro q' hq
          cases (hwhere q' _ (by simp [waiting]) hq).2
        · exact fun _ _ => Or.inr hw.status
        · intro q₁ k₁ q₂ k₂ hk₁ hk₂ h₁ h₂
          obtain ⟨rfl, rfl⟩ := hwhere q₁ k₁ hk₁ h₁
          obtain ⟨rfl, rfl⟩ := hwhere q₂ k₂ hk₂ h₂
          exact ⟨rfl, rfl⟩
      · have hoff : q.isAsync = false := by simpa using hasync
        have hat : ∀ w, Enqueuing n q w → At n (some .queued) w := fun w hw =>
          ⟨hw.status, fun q' k hk hq => hasync (hw.here q' k hk hq).2⟩
        have hstored := storable_enqueued (hstore hoff) now
        have hsync := (runSync_proper (q := q) (j := (Queue.enqueuedModel j now).saved) hU hname
          hstored).pre hat
        refine Prog.Steady.bind (Q := fun _ => Placed n) (hsync.bind fun r => ?_) fun r => ?_
        · obtain ⟨j', x | u⟩ := r
          · exact Prog.Steady.raise fun w hw => hw.2
          · exact Prog.Steady.ret fun w hw => hw.2
        · exact proper_of_shrinking ((expire_steps rfl _).mono
            (fun _ _ _ => shrinks_of_expireStep) fun _ => id)

/-- The conditions under which creating the job is in order. -/
structure Creatable (env : Env) (n : JobName) (q : Queue) (a : JobArgs) (when' : Queue.When)
    (w : World) : Prop where
  absent : w.status n = none
  unplaced : Unplaced n w
  storable : q.isAsync = false → when' = .none →
    Storable env (JobModel.fresh env a q.name .queued w.now)

/-- `create` in a given world: one step, once everything has been checked. -/
theorem create_steady {a : JobArgs} {queueName : QueueName} {status : JobStatus} {w₀ : World}
    (hstep : JobModel.createError env a w₀ = none →
      Follows n w₀ (w₀.saveJob (JobModel.fresh env a queueName status w₀.now) false)) :
    (JobModel.create env a queueName status).Steady (Follows n) (fun w => w = w₀)
      (fun j w => JobModel.createError env a w₀ = none ∧
        j = (JobModel.fresh env a queueName status w₀.now).saved ∧
        w = w₀.saveJob (JobModel.fresh env a queueName status w₀.now) false)
      fun _ w => w = w₀ := by
  have hpick : (JobModel.pickName a.name queueName a.scheduledTaskId).Steady (Follows n)
      (fun w => w = w₀) (fun m w => (m = JobModel.nameFor a queueName w₀.now ∧
        (a.name.any fun n => w₀.jobExists n) = false) ∧ w = w₀) fun _ w => w = w₀ := by
    unfold JobModel.pickName JobModel.nameFor
    cases a.name with
    | none =>
        refine Prog.Steady.bind (Q := fun now w => now = w₀.now ∧ w = w₀)
          (Prog.Steady.read follows_refl fun w hw => ⟨by rw [hw], hw⟩) fun now => ?_
        exact Prog.Steady.ret fun w hw => ⟨⟨by rw [hw.1], rfl⟩, hw.2⟩
    | some m =>
        refine Prog.Steady.bind (Q := fun b w => b = w₀.jobExists m ∧ w = w₀)
          (Prog.Steady.read follows_refl fun w hw => ⟨by rw [hw], hw⟩) fun found => ?_
        refine Prog.Steady.ite (fun _ => Prog.Steady.raise fun w hw => hw.2) fun hnew => ?_
        refine Prog.Steady.ret fun w hw => ⟨⟨rfl, ?_⟩, hw.2⟩
        simpa [hw.1] using hnew
  unfold JobModel.create
  refine Prog.Steady.ite (fun _ => Prog.Steady.raise fun _ => id) fun htimeout => ?_
  refine Prog.Steady.bind hpick fun m => ?_
  refine Prog.Steady.of_pure fun hm => ?_
  refine Prog.Steady.bind (Q := fun now w => now = w₀.now ∧ w = w₀)
    (Prog.Steady.read follows_refl fun w hw => ⟨by rw [hw], hw⟩) fun now => ?_
  refine Prog.Steady.of_pure fun hnow => ?_
  obtain rfl : m = _ := hm.1
  subst hnow
  rw [JobModel.get_save]
  cases hser : (JobModel.new env.config a queueName (JobModel.nameFor a queueName w₀.now) status
      w₀.now).serializable with
  | false =>
      rw [if_neg (by simp)]
      exact Prog.Steady.bind (Q := fun _ _ => False) (Prog.Steady.raise fun _ => id) fun _ _ h =>
        h.elim
  | true =>
      rw [if_pos rfl]
      have hok : JobModel.createError env a w₀ = none := by
        have hencodes : (a.args.encodes && a.kwargs.encodes && a.metadata.encodes) = true := hser
        rw [JobModel.createError, if_neg htimeout, if_neg (by simp [hm.2]), if_pos hencodes]
      refine Prog.Steady.bind (Q := fun r w =>
          r.1 = (JobModel.fresh env a queueName status w₀.now).saved ∧
          w = w₀.saveJob (JobModel.fresh env a queueName status w₀.now) false) ?_ fun r => ?_
      · refine Prog.Steady.bind (Q := fun _ w =>
            w = w₀.saveJob (JobModel.fresh env a queueName status w₀.now) false)
          (Prog.Steady.write fun w hw => ?_) fun _ => Prog.Steady.ret fun w hw => ⟨rfl, hw⟩
        obtain rfl : w = w₀ := hw
        exact ⟨hstep hok, rfl⟩
      · refine Prog.Steady.bind (Q := fun _ w =>
            r.1 = (JobModel.fresh env a queueName status w₀.now).saved ∧
            w = w₀.saveJob (JobModel.fresh env a queueName status w₀.now) false)
          (Prog.Steady.emit follows_refl fun _ hw => hw) fun _ => ?_
        exact Prog.Steady.ret fun w hw => ⟨hok, hw⟩

/-- `placeJob` of another job. -/
theorem quiet_placeJob (hU : UserCode env (QuietStep n)) (q : Queue) (hj : j.name ≠ n)
    (when' : Queue.When) (atFront : Bool) :
    (q.placeJob env j when' atFront).Steps (QuietStep n) fun _ => True := by
  cases when' with
  | none => exact quiet_enqueueJob hU q hj atFront
  | datetime t =>
      have hsteps : (j.save false).Steps (ExecOr q.name j.name (QuietStep n)) (Named j.name) :=
        save_steps false rfl
      refine (After.get_steps (Q := fun r => r.1.name = j.name) (quiet_of_exec hsteps hj)
        fun _ _ h => h).bind fun r hr => ?_
      have hname : r.1.name ≠ n := by
        rw [hr]
        exact hj
      exact (quiet_write fun _ => quiet_zadd _ _ (Or.inl hname)).bind fun _ _ => trivial
  | other => trivial

/-- `placeJob` of the job that was just created. -/
theorem placeJob_proper (hU : UserCode env (QuietStep n)) (hj : j.name = n) (when' : Queue.When)
    (hstatus : j.status = Queue.statusFor when')
    (hstore : q.isAsync = false → when' = .none → Storable env j) (atFront : Bool) :
    Proper n (At n (some j.status)) (q.placeJob env j when' atFront) fun _ => Placed n := by
  cases when' with
  | none =>
      refine (enqueueJob_proper hU hj (fun h => hstore h rfl) atFront).pre fun w hw => ?_
      refine .of_unplaced hw.unplaced (Or.inr (Or.inr ?_))
      rw [hw.status, hstatus]
      rfl
  | datetime t =>
      have hscheduled : j.status = .scheduled := hstatus
      rw [hscheduled]
      have hsave : Proper n (At n (some .scheduled)) (After.get (j.save false)) fun r w =>
          r.1.name = n ∧ At n (some .scheduled) w := by
        rw [JobModel.get_save]
        refine Prog.Steady.ite (fun _ => ?_) fun _ => Prog.Steady.raise fun w hw => hw.placed
        refine Prog.Steady.bind (Q := fun _ => At n (some .scheduled))
          (Prog.Steady.write fun w hw => ?_) fun _ => Prog.Steady.ret fun w hw => ⟨hj, hw⟩
        have hquiet : Quiet n w (w.saveJob j false) :=
          quiet_saveJob false (Or.inr (Or.inl (by rw [hw.status, hscheduled])))
        exact ⟨hquiet.follows, hquiet.at hw⟩
      refine Prog.Steady.bind hsave fun r => ?_
      refine Prog.Steady.of_pure fun hr => ?_
      refine Prog.Steady.bind (Q := fun _ => Placed n) (Prog.Steady.write fun w hw => ?_) fun _ =>
        Prog.Steady.ret fun w hw => hw
      rw [hr]
      have hwhere : ∀ q' k, k ∈ waiting →
          (w.zadd q.name .scheduled n (t.timestamp env)).inRegistry q' k n →
          q' = q.name ∧ k = .scheduled := by
        intro q' k hk hq
        rw [World.inRegistry_zadd] at hq
        rcases hq with ⟨rfl, rfl, -⟩ | hq
        · exact ⟨rfl, rfl⟩
        · exact absurd hq (hw.unplaced q' k hk)
      refine ⟨.same _, fun _ _ => Or.inr hw.status, fun q' hq => ?_, ?_⟩
      · cases (hwhere q' _ (by simp [waiting]) hq).2
      · intro q₁ k₁ q₂ k₂ hk₁ hk₂ h₁ h₂
        obtain ⟨rfl, rfl⟩ := hwhere q₁ k₁ hk₁ h₁
        obtain ⟨rfl, rfl⟩ := hwhere q₂ k₂ hk₂ h₂
        exact ⟨rfl, rfl⟩
  | other => exact Prog.Steady.raise fun w hw => hw.placed

theorem createAndEnqueueJob_proper (hU : UserCode env (QuietStep n)) {a : JobArgs}
    {when' : Queue.When} {w₀ : World} (hw₀ : Placed n w₀)
    (h : JobModel.createError env a w₀ = none → JobModel.nameFor a q.name w₀.now = n →
      Creatable env n q a when' w₀) (atFront : Bool) :
    Proper n (fun w => w = w₀) (q.createAndEnqueueJob env a when' atFront) fun _ => Placed n := by
  have key : ∀ status, status = Queue.statusFor when' →
      Proper n (fun w => w = w₀) (JobModel.create env a q.name status >>= fun job =>
        q.placeJob env job when' atFront) fun _ => Placed n := by
    intro status hstatus
    have hwritten : ∀ now, (JobModel.fresh env a q.name status now).written false .status = true :=
      fun now => by simp [JobModel.written]
    have hstatus' : ∀ w : World, (w.saveJob (JobModel.fresh env a q.name status w₀.now) false).status n
        = if JobModel.nameFor a q.name w₀.now = n then some status else w.status n := by
      intro w
      rw [World.status_saveJob]
      by_cases hn : JobModel.nameFor a q.name w₀.now = n
      · rw [if_pos ⟨hn.symm, hwritten _⟩, if_pos hn]
        rfl
      · rw [if_neg fun hc => hn hc.1.symm, if_neg hn]
    refine Prog.Steady.bind ((create_steady fun hok => ?_).mono (fun _ => id) (fun _ _ => id)
      fun _ w hw => hw ▸ hw₀) fun j => ?_
    · show Change _ _
      rw [hstatus']
      split
      · rename_i hn
        rw [(h hok hn).absent, hstatus]
        cases when' with
        | none => exact .queued
        | datetime t => exact .scheduled
        | other => exact .scheduled
      · exact .same _
    · refine Prog.Steady.of_pure fun hok => Prog.Steady.of_pure fun hj => ?_
      subst hj
      by_cases hn : JobModel.nameFor a q.name w₀.now = n
      · have hcreate := h hok hn
        have hplace := placeJob_proper (q := q) hU
          (j := (JobModel.fresh env a q.name status w₀.now).saved) hn when' hstatus
          (fun hq hwhen => ?_) atFront
        · refine hplace.pre fun w hw => ?_
          subst hw
          refine ⟨?_, hcreate.unplaced⟩
          rw [hstatus', if_pos hn]
          rfl
        · subst hwhen
          rw [Storable, JobModel.saved_successTtl, JobModel.saved_funcName]
          exact hcreate.storable hq rfl
      · have hquiet := quiet_placeJob hU q
          (j := (JobModel.fresh env a q.name status w₀.now).saved) hn when' atFront
        refine (proper_of_quiet hquiet (lasting_placed n) fun _ => id).mono (fun w hw => ?_)
          (fun _ _ hw => hw.1) fun _ _ => id
        subst hw
        have hsaved : Quiet n w₀ (w₀.saveJob (JobModel.fresh env a q.name status w₀.now) false) :=
          quiet_saveJob false (Or.inl hn)
        exact hsaved.placed hw₀
  cases when' with
  | none => exact key .queued rfl
  | datetime t => exact key .scheduled rfl
  | other => exact key .scheduled rfl

end Enqueuing

/-! ## Dequeuing and starting the job -/

section Dequeuing

variable {env : Env} {n : JobName}

theorem status_of_fetch {w : World} {m : JobName} {j : JobModel}
    (h : JobModel.fetch env w m = some j) : w.status m = some j.status := by
  obtain ⟨v, hv, hj⟩ := JobModel.loadedFrom_of_fetch h
  rw [World.status, hv]
  exact hj.status

/-- What a worker knows of the job it has popped. -/
def Taken (n m : JobName) (w : World) : Prop :=
  m = n → Unplaced n w ∧ (w.status n = none ∨ w.status n = some .queued)

/-- A pop takes the job out of the one place where it waits. -/
theorem taken_of_zpopmin {w w' : World} {q : QueueName} {m : JobName} (hw : Placed n w)
    (hp : w.zpopmin q .queued = (some m, w')) : Quiet n w w' ∧ Taken n m w' := by
  obtain ⟨z, rfl, hin, hscore⟩ := World.zpopmin_some hp
  have hsub : ∀ q' k, (w.setRegistry q .queued z).inRegistry q' k n →
      ¬ (q' = q ∧ k = .queued ∧ n = m) ∧ w.inRegistry q' k n := by
    intro q' k h
    rw [World.inRegistry_iff, hscore] at h
    split at h
    · cases h
    · rename_i hnot
      exact ⟨hnot, (World.inRegistry_iff ..).2 h⟩
  refine ⟨⟨rfl, fun q' k _ h => (hsub q' k h).2⟩, ?_⟩
  rintro rfl
  refine ⟨fun q' k hk h => ?_, hw.queued q hin⟩
  obtain ⟨hnot, h⟩ := hsub q' k h
  obtain ⟨rfl, rfl⟩ := hw.once q' k q .queued hk (by simp [waiting]) h hin
  exact hnot ⟨rfl, rfl, rfl⟩

theorem dequeueRule (n : JobName) (qs : List QueueName) :
    DequeueRule (Side.steady (ε := Event) (Follows n)) (fun c => Placed n c.1)
      { Seen := fun _ _ => True, Gone := fun _ _ => True, Held := fun _ m c => Taken n m c.1,
        Lost := fun _ _ => True, Given := fun _ m c => Taken n m c.1 } qs where
  stable := Side.steady_stable _ _
  stableSeen := fun _ => Side.steady_stable _ _
  stableGone := fun _ => Side.steady_stable _ _
  stableHeld := fun _ _ => Side.steady_stable _ _
  stableLost := fun _ => Side.steady_stable _ _
  stableGiven := fun _ _ => Side.steady_stable _ _
  refl := fun c _ => follows_refl c.1
  seen := fun _ _ _ _ _ _ _ => trivial
  gone := fun _ _ _ _ _ _ => trivial
  delete := fun w _ q m _ hw _ =>
    have hquiet : Quiet n w (w.zrem q .queued m) := quiet_zrem q .queued
    ⟨hquiet.follows, hquiet.placed hw, fun _ _ => trivial⟩
  pop := fun _ _ _ _ _ _ hw hp =>
    have htaken := taken_of_zpopmin hw hp
    ⟨htaken.1.follows, htaken.1.placed hw, htaken.2⟩
  lost := fun _ _ _ _ _ _ _ => trivial
  drop := fun w _ _ hw _ => ⟨follows_refl w, hw⟩
  give := fun w _ _ _ hw h => ⟨follows_refl w, hw, h⟩

/-- A job that was dequeued is queued, and nowhere waiting. -/
def Fetched (n : JobName) (r : Option (JobModel × Queue)) (w : World) : Prop :=
  Placed n w ∧ ∀ j q, r = some (j, q) → j.name = n → At n (some .queued) w

theorem dequeueAny_proper (queues : List Queue) (timeout : Option Int) (fuel : Nat) :
    Proper n (Placed n) (Queue.dequeueAny env queues timeout fuel) (Fetched n) := by
  have hrule := dequeueRule n (queues.map Queue.name)
  have hnone : ∀ w, Placed n w → Fetched n none w := fun w hw => ⟨hw, fun j q h => by cases h⟩
  induction fuel with
  | zero => exact Prog.Steady.ret hnone
  | succ fuel ih =>
      refine Prog.Steady.bind (Q := fun _ => Placed n)
        (Prog.Steady.forEach fun q hq => hrule.compact_triple (List.mem_map_of_mem hq)) fun _ => ?_
      refine Prog.Steady.bind (Q := fun r w => Placed n w ∧ ∀ q m, r = some (q, m) → Taken n m w)
        (Side.Triple.mono (hrule.pop_triple timeout) (fun _ hc => hc)
          (fun r c hc => ⟨hc.1, fun q m hr => (hc.2 q m hr).2⟩) fun _ _ hc => hc) fun r => ?_
      cases r with
      | none => exact Prog.Steady.ret fun w hw => hnone w hw.1
      | some p =>
          obtain ⟨key, m⟩ := p
          dsimp only
          cases List.find? (fun q : Queue => decide (q.name = key)) queues with
          | none => exact Prog.Steady.ret fun w hw => hnone w hw.1
          | some q =>
              -- the record that is read is the one of the state in which the job was popped
              refine Prog.Steady.bind (Q := fun job w => Placed n w ∧ Taken n m w ∧
                  job = JobModel.fetch env w m)
                (Prog.Steady.read follows_refl fun w hw => ⟨hw.1, hw.2 key m rfl, rfl⟩)
                fun job => ?_
              cases job with
              | none =>
                  refine Prog.Steady.bind (Q := fun _ => Placed n)
                    (Prog.Steady.emit follows_refl fun w hw => hw.1) fun _ => ih
              | some j =>
                  refine Prog.Steady.bind (Q := fun _ w => Placed n w ∧ Taken n m w ∧
                      some j = JobModel.fetch env w m)
                    (Prog.Steady.emit follows_refl fun w hw => hw) fun _ => ?_
                  refine Prog.Steady.ret fun w hw => ⟨hw.1, fun j' q' hr hj' => ?_⟩
                  obtain ⟨rfl, rfl⟩ : j = j' ∧ q = q' := by simpa using hr
                  have hm : m = n := (JobModel.name_of_fetch hw.2.2.symm).symm.trans hj'
                  subst hm
                  obtain ⟨hunplaced, hstatus⟩ := hw.2.1 rfl
                  refine ⟨?_, hunplaced⟩
                  have hsome := status_of_fetch hw.2.2.symm
                  rw [hsome] at hstatus
                  rw [hsome]
                  exact hstatus.resolve_left fun h => by cases h

/-- A program for another job, started where the invariant holds. -/
theorem proper_of_other {α : Type} {q : QueueName} {m : JobName} {p : Py α} {Q : α → Prop}
    (h : p.Steps (ExecOr q m (QuietStep n)) Q) (hm : m ≠ n) :
    Proper n (Placed n) p fun _ => Placed n :=
  (proper_of_quiet (quiet_of_exec h hm) (lasting_placed n) fun _ => id).mono (fun _ => id)
    (fun _ _ hw => hw.1) fun _ _ => id

/-- What is left of a method when its exception is raised. -/
theorem get_proper {α : Type} {P : World → Prop} {p : Py (After α)}
    (h : Proper n P p fun _ => Placed n) : Proper n P (After.get p) fun _ => Placed n := by
  refine h.bind fun r => ?_
  obtain ⟨j, x | a⟩ := r
  · exact Prog.Steady.raise fun _ => id
  · exact Prog.Steady.ret fun _ => id

/-- `prepare_for_execution`, whichever job it is for. -/
theorem prepare_proper {j : JobModel} (worker : WorkerName) (q : Queue) :
    Proper n (fun w => Placed n w ∧ (j.name = n → At n (some .queued) w))
      (After.get (j.prepareForExecution worker q.activeJobRegistry)) fun _ => Placed n := by
  refine get_proper ?_
  by_cases hj : j.name = n
  · refine (prepareForExecution_proper hj worker).mono (fun w hw => hw.2 hj) (fun r w hw => ?_)
      fun _ _ => id
    obtain ⟨j', x | u⟩ := r
    · exact hw.2.placed
    · exact hw.2.2.2.2.placed
  · exact (proper_of_other (prepareForExecution_steps rfl worker) hj).pre fun w hw => hw.1

theorem startNext_proper (queues : List Queue) (timeout : Option Int) (worker : WorkerName)
    (fuel : Nat) :
    Proper n (Placed n) (Op.startNext env queues timeout worker fuel) fun _ => Placed n := by
  refine (dequeueAny_proper queues timeout fuel).bind fun r => ?_
  cases r with
  | none => exact Prog.Steady.ret fun w hw => hw.1
  | some p =>
      obtain ⟨j, q⟩ := p
      refine Prog.Steady.bind ((prepare_proper worker q).pre fun w hw => ?_) fun _ =>
        Prog.Steady.ret fun _ => id
      exact ⟨hw.1, hw.2 j q rfl⟩

end Dequeuing

/-! ## Ending, canceling and cleaning -/

section Ending

variable {env : Env} {n : JobName} {q : Queue} {j : JobModel}

/-- The job was started, if it is this one. -/
def StartedIf (n m : JobName) (w : World) : Prop :=
  Placed n w ∧ (m = n → w.status n = some .started)

theorem StartedIf.at {m : JobName} {w : World} (h : StartedIf n m w) (hm : m = n) :
    At n (some .started) w :=
  h.1.at_of_status (h.2 hm) (by simp) (by simp)

theorem success_proper (v : PyValue) (ttl resultTtl : Int) :
    Proper n (StartedIf n j.name) (After.get (q.jobHandleSuccess j v ttl resultTtl))
      fun _ => Placed n := by
  refine get_proper ?_
  by_cases hj : j.name = n
  · exact (jobHandleSuccess_proper hj v ttl resultTtl).mono (fun w hw => hw.at hj)
      (fun _ _ hw => hw.1) fun _ _ => id
  · have hsteps : (q.jobHandleSuccess j v ttl resultTtl).Steps
        (ExecOr q.name j.name (QuietStep n)) (Named j.name) :=
      jobHandleSuccess_steps rfl v ttl resultTtl
    exact (proper_of_other hsteps hj).pre fun w hw => hw.1

theorem failure_proper {status : JobStatus} (hs : Next .started status) (exc : String) :
    Proper n (StartedIf n j.name) (After.get (q.jobHandleFailure env status j exc))
      fun _ => Placed n := by
  refine get_proper ?_
  by_cases hj : j.name = n
  · exact (jobHandleFailure_proper hj hs exc).mono (fun w hw => hw.at hj) (fun _ _ hw => hw.2)
      fun _ _ => id
  · have hsteps : (q.jobHandleFailure env status j exc).Steps
        (ExecOr q.name j.name (QuietStep n)) (Named j.name) :=
      jobHandleFailure_steps rfl status exc
    exact (proper_of_other hsteps hj).pre fun w hw => hw.1

/-- `handle_job_success`, after the save at the end of `queue_perform_job`. -/
theorem finishJob_proper (v : PyValue) (hstatus : j.name = n → j.status = .started) :
    Proper n (StartedIf n j.name) (Op.finishJob q j v) fun _ => Placed n := by
  have hsave : Proper n (StartedIf n j.name) (After.get (j.save true)) fun r w =>
      r.1 = j.saved ∧ StartedIf n j.name w := by
    rw [JobModel.get_save]
    refine Prog.Steady.ite (fun _ => ?_) fun _ => Prog.Steady.raise fun w hw => hw.1
    refine Prog.Steady.bind (Q := fun _ => StartedIf n j.name) (Prog.Steady.write fun w hw => ?_)
      fun _ => Prog.Steady.ret fun w hw => ⟨rfl, hw⟩
    have hquiet : Quiet n w (w.saveJob j true) := by
      refine quiet_saveJob true ?_
      by_cases hj : j.name = n
      · exact Or.inr (Or.inl (by rw [hw.2 hj, hstatus hj]))
      · exact Or.inl hj
    exact ⟨hquiet.follows, hquiet.placed hw.1, fun hj => by rw [hquiet.status, hw.2 hj]⟩
  refine Prog.Steady.bind hsave fun r => ?_
  refine Prog.Steady.of_pure fun hr => ?_
  obtain ⟨j', u⟩ := r
  obtain rfl : j' = j.saved := hr
  have hname : j.saved.name = j.name := JobModel.saved_name j
  refine Prog.Steady.bind (Q := fun _ => Placed n) ?_ fun r => ?_
  · exact (success_proper v _ _).pre fun w hw => by rwa [hname]
  · refine Prog.Steady.bind (Q := fun _ => Placed n) ?_ fun _ => Prog.Steady.ret fun _ => id
    exact proper_of_shrinking ((expire_steps rfl _).mono (fun _ _ _ => shrinks_of_expireStep)
      fun _ => id)

/-- The job may be canceled from the queue: it is queued there and nowhere else, or it runs, or
canceling it is refused. -/
def Cancelable (env : Env) (n : JobName) (q : Queue) (w : World) : Prop :=
  ∀ j, JobModel.fetch env w n = some j →
    (j.status = .queued ∧ ∀ q', w.inRegistry q' .queued n → q' = q.name) ∨
      j.status = .started ∨ j.status = .canceled

theorem quiet_removeFromRegistries (m : JobName) {w : World} :
    Quiet n w (q.removeFromRegistries m w) :=
  ⟨rfl, fun q' k _ h => ((Queue.inRegistry_removeFromRegistries q m n w q' k).1 h).1⟩

/-- The pipeline of `cancel_job`, and the registry the job goes to. -/
theorem canceled_step {w : World} {m : JobName} (hw : Placed n w)
    (hcancel : m = n → Cancelable env n q w) (hfetch : JobModel.fetch env w m = some j)
    (hstatus : j.status ≠ .canceled) :
    Follows n w (q.removeFromRegistries m (w.hsetStatus j.name (Queue.cancelStatus j))) ∧
      Placed n (q.removeFromRegistries m (w.hsetStatus j.name (Queue.cancelStatus j))) := by
  have hname : j.name = m := JobModel.name_of_fetch hfetch
  rw [hname]
  have hremove : Quiet n (w.hsetStatus m (Queue.cancelStatus j))
      (q.removeFromRegistries m (w.hsetStatus m (Queue.cancelStatus j))) :=
    quiet_removeFromRegistries m
  by_cases hm : m = n
  · subst hm
    have hold : w.status m = some j.status := status_of_fetch hfetch
    have hnew : (w.hsetStatus m (Queue.cancelStatus j)).status m = some (Queue.cancelStatus j) := by
      rw [World.status_hsetStatus, if_pos rfl]
    have hfollows : ∀ {s : JobStatus}, Queue.cancelStatus j = s → Next j.status s →
        Follows m w (q.removeFromRegistries m (w.hsetStatus m (Queue.cancelStatus j))) := by
      intro s hs hnext
      show Change _ _
      rw [hremove.status, hnew, hold, hs]
      exact .next hnext
    rcases hcancel rfl j hfetch with ⟨hqueued, hhere⟩ | hstarted | hcanceled
    · have hs : Queue.cancelStatus j = .canceled := by rw [Queue.cancelStatus, if_pos hqueued]
      refine ⟨hfollows hs (hqueued ▸ .cancel), Unplaced.placed fun q' k hk h => ?_⟩
      obtain ⟨hin, hnot⟩ := (Queue.inRegistry_removeFromRegistries ..).1 h
      have hin' : w.inRegistry q' k m := hin
      simp only [waiting, List.mem_cons, List.not_mem_nil, or_false] at hk
      rcases hk with rfl | rfl
      · -- a queued job waits in no scheduled registry
        rcases hw.scheduled q' hin' with h | h <;> rw [hold] at h
        · cases h
        · rw [hqueued] at h
          cases h
      · exact hnot ⟨hhere q' hin', by simp, rfl⟩
    · have hs : Queue.cancelStatus j = .stopped := by
        rw [Queue.cancelStatus, if_neg (by rw [hstarted]; simp)]
      have hat := hw.at_of_status (hold.trans (congrArg some hstarted)) (by simp) (by simp)
      refine ⟨hfollows hs (hstarted ▸ .stop), Unplaced.placed fun q' k hk h => ?_⟩
      exact hat.unplaced q' k hk ((Queue.inRegistry_removeFromRegistries ..).1 h).1
    · exact absurd hcanceled hstatus
  · have hset : Quiet n w (w.hsetStatus m (Queue.cancelStatus j)) := by
      refine ⟨?_, fun _ _ _ => id⟩
      rw [World.status_hsetStatus, if_neg fun h => hm h.symm]
    refine ⟨?_, hremove.placed (hset.placed hw)⟩
    show Change _ _
    rw [hremove.status, hset.status]
    exact .same _

theorem cancelJob_proper (m : JobName) :
    Proper n (fun w => Placed n w ∧ (m = n → Cancelable env n q w)) (q.cancelJob env m)
      fun _ => Placed n := by
  have hadd : ∀ {k : RegistryKind} (s : Int), k ∉ waiting →
      Proper n (Placed n) ((Registry.mk q.name k).add m s) fun _ => Placed n := fun s hk =>
    Prog.Steady.write fun w hw =>
      have hquiet : Quiet n w (w.zadd q.name _ m s) := quiet_zadd q.name s (Or.inr hk)
      ⟨hquiet.follows, hquiet.placed hw⟩
  refine Prog.Steady.bind (Q := fun job w => job = JobModel.fetch env w m ∧ Placed n w ∧
      (m = n → Cancelable env n q w))
    (Prog.Steady.read follows_refl fun w hw => ⟨rfl, hw⟩) fun job => ?_
  cases job with
  | none => exact Prog.Steady.raise fun w hw => hw.2.1
  | some j =>
      refine Prog.Steady.ite (fun _ => Prog.Steady.raise fun w hw => hw.2.1) fun hs => ?_
      refine Prog.Steady.bind (Q := fun _ => Placed n) (Prog.Steady.command fun w hw => ?_)
        fun _ => ?_
      · exact canceled_step hw.2.1 hw.2.2 hw.1.symm hs
      · refine Prog.Steady.ite (fun _ => hadd _ (by simp [waiting])) fun _ => ?_
        refine Prog.Steady.bind (Q := fun _ => Placed n)
          (Prog.Steady.read follows_refl fun _ => id) fun t => ?_
        exact hadd _ (by simp [waiting])

/-- The job, if it has a status, was started. -/
def Ran (n : JobName) (w : World) : Prop := w.status n = none ∨ w.status n = some .started

/-- Abandoned jobs are failed from whatever status they have. -/
theorem cleanAbandoned_proper (hU : UserCode env (QuietStep n)) (before : Int)
    (p : Int × JobName) :
    Proper n (fun w => Placed n w ∧ (p.2 = n → Ran n w)) (q.cleanAbandoned env before p)
      fun _ => Placed n := by
  refine Prog.Steady.bind (Q := fun job w => (∀ j, job = some j → j.name = p.2) ∧
      Placed n w ∧ (p.2 = n → job.isSome → w.status n = some .started))
    (Prog.Steady.read follows_refl fun w hw => ⟨fun j hj => JobModel.name_of_fetch hj, hw.1,
      fun hp hsome => ?_⟩) fun job => ?_
  · obtain ⟨j, hj⟩ := Option.isSome_iff_exists.1 hsome
    have hstatus := status_of_fetch hj
    rw [hp] at hstatus
    refine (hw.2 hp).resolve_left fun hnone => ?_
    rw [hstatus] at hnone
    cases hnone
  cases job with
  | none => exact Prog.Steady.ret fun w hw => hw.2.1
  | some j =>
      refine Prog.Steady.of_pure fun hname => ?_
      have hj : j.name = p.2 := hname j rfl
      refine Prog.Steady.ite (fun _ => Prog.Steady.ret fun w hw => hw.1) fun _ => ?_
      have hcleanup : Proper n (Placed n)
          (Prog.forEach q.registries fun r => r.cleanup (some before)) fun _ => Placed n :=
        Prog.Steady.forEach fun r _ => (proper_of_quiet (quiet_cleanup r _) (lasting_placed n)
          fun _ => id).mono (fun _ => id) (fun _ _ hw => hw.1) fun _ _ => id
      have hquiet : (After.get (j.callFailureCallback env)).Steps (QuietStep n) fun r =>
          r.1.name = p.2 :=
        After.get_steps (callCallback_steps hU hj _ _ fun w => Quiet.refl w) fun _ _ h => h
      have hlasting : Lasting n fun w => StartedIf n p.2 w := fun w w' h hw =>
        ⟨h.placed hw.1, fun hp => by rw [h.status, hw.2 hp]⟩
      refine Prog.Steady.bind (Q := fun r w => StartedIf n p.2 w ∧ r.1.name = p.2)
        ((proper_of_quiet hquiet hlasting fun w hw => hw.1).pre fun w hw =>
          ⟨hw.1, fun hp => hw.2 hp rfl⟩) fun r => ?_
      obtain ⟨j', u⟩ := r
      refine Prog.Steady.bind (Q := fun _ => Placed n) ((failure_proper .fail _).pre
        fun w hw => ?_) fun _ => hcleanup
      rw [show j'.name = p.2 from hw.2]
      exact hw.1

theorem quiet_cleanAbandoned (hU : UserCode env (QuietStep n)) (before : Int) {p : Int × JobName}
    (hp : p.2 ≠ n) : (q.cleanAbandoned env before p).Steps (QuietStep n) fun _ => True := by
  have hget : (JobModel.get env p.2).Steps (QuietStep n) fun job =>
      ∀ j, job = some j → j.name = p.2 :=
    fun w => ⟨.refl w, fun _ hj => JobModel.name_of_fetch hj⟩
  refine hget.bind fun job hjob => ?_
  cases job with
  | none => trivial
  | some j =>
      have hj : j.name ≠ n := by
        rw [hjob j rfl]
        exact hp
      refine Prog.Steps.ite (fun _ => trivial) fun _ => ?_
      have hcallback : (j.callFailureCallback env).Steps (ExecOr q.name j.name (QuietStep n))
          (Named j.name) := callFailureCallback_steps hU rfl
      refine (After.get_steps (Q := fun r => r.1.name = j.name) (quiet_of_exec hcallback hj)
        fun _ _ h => h).bind fun r hr => ?_
      have hr' : r.1.name ≠ n := by
        rw [hr]
        exact hj
      have hsteps : (q.jobHandleFailure env .failed r.1
          "Moved to the failed registry, due to AbandonedJobError").Steps
          (ExecOr q.name r.1.name (QuietStep n)) (Named r.1.name) :=
        jobHandleFailure_steps rfl .failed _
      have hfailure := quiet_of_exec hsteps hr'
      refine (After.get_steps (Q := fun _ => True) hfailure fun _ _ _ => trivial).bind
        fun _ _ => ?_
      exact Prog.Steps.forEach fun r _ => quiet_cleanup r _

/-- The loop: once the job has been failed its name does not come again. -/
theorem cleanLoop_proper (hU : UserCode env (QuietStep n)) (before : Int)
    (l : List (Int × JobName)) (hl : (l.map Prod.snd).Nodup) :
    Proper n (fun w => Placed n w ∧ (n ∈ l.map Prod.snd → Ran n w))
      (Prog.forEach l (q.cleanAbandoned env before)) fun _ => Placed n := by
  induction l with
  | nil => exact Prog.Steady.ret fun w hw => hw.1
  | cons p l ih =>
      rw [List.map_cons, List.nodup_cons] at hl
      by_cases hp : p.2 = n
      · refine Prog.Steady.bind (Q := fun _ => Placed n) ((cleanAbandoned_proper hU before p).pre
          fun w hw => ⟨hw.1, fun _ => hw.2 ?_⟩) fun _ => (ih hl.2).pre fun w hw => ⟨hw, ?_⟩
        · rw [List.map_cons, hp]
          exact List.mem_cons_self
        · intro hmem
          rw [hp] at hl
          exact absurd hmem hl.1
      · have hlasting : Lasting n fun w => Placed n w ∧ (n ∈ l.map Prod.snd → Ran n w) := by
          intro w w' h hw
          refine ⟨h.placed hw.1, fun hmem => ?_⟩
          unfold Ran
          rw [h.status]
          exact hw.2 hmem
        refine Prog.Steady.bind ((proper_of_quiet (quiet_cleanAbandoned hU before hp) hlasting
          fun w hw => hw.1).pre fun w hw => ⟨hw.1, fun hmem => hw.2 ?_⟩) fun _ =>
            (ih hl.2).pre fun w hw => hw.1
        exact List.mem_cons_of_mem _ hmem

/-- Cleaning finds the job only after it was started. -/
def Cleanable (n : JobName) (q : Queue) (timestamp : Option Int) (w : World) : Prop :=
  ∀ s, (w.registry q.name .active).score n = some s → 0 ≤ s →
    s ≤ Registry.cleanupScore timestamp w → Ran n w

theorem timestampOrNow_steady {P : World → Prop} {X : PyError → World → Prop} (t : Option Int) :
    (timestampOrNow t).Steady (Follows n) P
      (fun before w => before = Registry.cleanupScore t w ∧ P w) X := by
  cases t with
  | none => exact Prog.Steady.read follows_refl fun w hw => ⟨rfl, hw⟩
  | some t =>
      refine Prog.Steady.ite (fun ht => ?_) fun ht => Prog.Steady.ret fun w hw => ⟨?_, hw⟩
      · refine Prog.Steady.read follows_refl fun w hw => ⟨?_, hw⟩
        rw [Registry.cleanupScore, if_pos ht]
      · rw [Registry.cleanupScore, if_neg ht]

/-- What `clean_registries` knows once it has taken its timestamp. -/
def Known (n : JobName) (q : Queue) (timestamp : Option Int) (before : Int) (w : World) : Prop :=
  before = Registry.cleanupScore timestamp w ∧ Placed n w ∧ Cleanable n q timestamp w

theorem cleanRegistries_proper (hU : UserCode env (QuietStep n)) (timestamp : Option Int) :
    Proper n (fun w => Placed n w ∧ Cleanable n q timestamp w)
      (q.cleanRegistries env timestamp) fun _ => Placed n := by
  refine Prog.Steady.bind (timestampOrNow_steady timestamp) fun before => ?_
  have hcompact : Proper n (Known n q timestamp before) (Registry.mk q.name .queued).compact fun _ =>
      Known n q timestamp before := by
    refine (Prog.Steady.of_steps (compact_steps (R := fun w w' _ => ∃ m, w' = w ∨
      w' = w.zrem q.name .queued m) (fun w => ⟨"", Or.inl rfl⟩) fun w m => ⟨m, Or.inr rfl⟩)
      fun w w' _ h hw => ?_).mono (fun _ => id) (fun _ _ hw => hw.1) fun _ w hw => hw.2.1
    obtain ⟨m, rfl | rfl⟩ := h
    · exact ⟨follows_refl w', hw⟩
    · have hquiet : Quiet n w (w.zrem q.name .queued m) := quiet_zrem _ _
      refine ⟨hquiet.follows, hw.1, hquiet.placed hw.2.1, fun s hs => ?_⟩
      rw [World.score_zrem, if_neg fun h => by cases h.2.1] at hs
      exact hw.2.2 s hs
  refine Prog.Steady.bind hcompact fun _ => ?_
  refine Prog.Steady.bind (Q := fun l w => (l.map Prod.snd).Nodup ∧ Placed n w ∧
      (n ∈ l.map Prod.snd → Ran n w)) ?_ fun l =>
    Prog.Steady.of_pure fun hl => cleanLoop_proper hU before l hl
  refine Prog.Steady.bind (timestampOrNow_steady (some before)) fun score => ?_
  refine Prog.Steady.read follows_refl fun w hw => ⟨SortedSet.rangeByScore_nodup _ _ _, hw.2.2.1,
    fun hmem => ?_⟩
  obtain ⟨⟨s, m⟩, hp, rfl⟩ := List.mem_map.1 hmem
  obtain ⟨hs, hlo, hhi⟩ := (SortedSet.mem_rangeByScore _ _ _ _ _).1 hp
  refine hw.2.2.2 s hs hlo (hhi.trans (le_of_eq ?_))
  have hscore : score = Registry.cleanupScore (some before) w := hw.1
  have hbefore : before = Registry.cleanupScore timestamp w := hw.2.1
  rw [hscore, hbefore, Registry.cleanupScore_cleanupScore]

end Ending

/-! ## Operations that leave the job alone -/

section Others

variable {env : Env} {n : JobName} {q : Queue} {j : JobModel}

theorem quiet_all (r : Registry) (i k : Int) : (r.all i k).Steps (QuietStep n) fun _ => True :=
  (quiet_allWithTimestamps r i k).bind fun _ _ => trivial

theorem quiet_countOf (l : List Registry) :
    (Queue.count.countOf l).Steps (QuietStep n) fun _ => True := by
  induction l with
  | nil => trivial
  | cons r l ih =>
      have hcount : (r.count).Steps (QuietStep n) fun _ => True :=
        (quiet_cleanup r none).bind fun _ _ => quiet_read _
      exact hcount.bind fun _ _ => ih.bind fun _ _ => trivial

theorem quiet_existing (l : List JobName) :
    (Queue.getAllJobNames.existing l).Steps (QuietStep n) fun _ => True := by
  induction l with
  | nil => trivial
  | cons m l ih => exact (quiet_read _).bind fun _ _ => ih.bind fun _ _ => trivial

theorem quiet_getAllJobNames (q : Queue) :
    (q.getAllJobNames).Steps (QuietStep n) fun _ => True := by
  refine (quiet_all _ _ _).bind fun _ _ => (quiet_all _ _ _).bind fun _ _ => ?_
  refine (quiet_all _ _ _).bind fun _ _ => (quiet_all _ _ _).bind fun _ _ => ?_
  refine (quiet_all _ _ _).bind fun _ _ => (quiet_all _ _ _).bind fun _ _ => ?_
  exact quiet_existing _

theorem shrinking_of_quiet {α : Type} {p : Py α} {Q : α → Prop} (h : p.Steps (QuietStep n) Q) :
    p.Steps (ShrinkStep n) Q :=
  h.mono (fun _ _ _ hs => hs.shrinks) fun _ => id

theorem shrinking_clearRegistry (r : Registry) :
    (clearRegistry env r).Steps (ShrinkStep n) fun _ => True := by
  refine (shrinking_of_quiet (quiet_all r 0 (-1))).bind fun names _ =>
    Prog.Steps.forEach fun m _ => ?_
  refine (shrinking_of_quiet (quiet_write fun _ => quiet_zrem _ _)).bind fun _ _ => ?_
  refine (shrinking_of_quiet (quiet_read _)).bind fun job _ => ?_
  cases job with
  | none => trivial
  | some j =>
      refine Prog.Steps.bind (Q := fun _ => True) ?_ fun _ _ => trivial
      exact (Prog.Steps.write fun _ => shrinks_deleteJob).bind fun _ _ => trivial

theorem quiet_removeFromAll (m : JobName) {w : World} : Quiet n w (q.removeFromAll m w) := by
  have hremove : Quiet n w (q.removeFromRegistries m w) := quiet_removeFromRegistries m
  have hfailed : Quiet n (q.removeFromRegistries m w) (q.removeFromAll m w) := quiet_zrem _ _
  exact ⟨hfailed.status.trans hremove.status,
    fun q' k hk h => hremove.waiting q' k hk (hfailed.waiting q' k hk h)⟩

theorem shrinking_deleteJob (m : JobName) (e : Bool) :
    (q.deleteJob env m e).Steps (ShrinkStep n) fun _ => True := by
  refine Prog.Steps.bind (Q := fun _ => True) ?_ fun job _ => ?_
  · cases e with
    | true => exact shrinking_of_quiet (quiet_read _)
    | false => trivial
  cases job with
  | none => exact Prog.Steps.write fun _ => (quiet_removeFromAll m).shrinks
  | some j =>
      refine Prog.Steps.ite (fun _ => ?_) fun _ => Prog.Steps.write fun w => ?_
      · refine Prog.Steps.bind (Q := fun _ => True) ?_ fun _ _ =>
          Prog.Steps.write fun _ => (quiet_removeFromAll m).shrinks
        exact (Prog.Steps.write fun _ => shrinks_deleteJob).bind fun _ _ => trivial
      · have hremove : Quiet n w (q.removeFromAll m w) := quiet_removeFromAll m
        unfold Queue.expireIn
        split
        · have hexpire : Shrinks n (q.removeFromAll m w) ((q.removeFromAll m w).expireJob j.name
              ((q.removeFromAll m w).now + secs j.jobInfoTtl)) := shrinks_expireJob _
          refine ⟨?_, fun q' k hk h => hremove.waiting q' k hk (hexpire.waiting q' k hk h)⟩
          rw [← hremove.status]
          exact hexpire.status
        · exact hremove.shrinks

/-- `_enqueue_multiple_jobs` of other jobs. -/
theorem quiet_enqueueMultipleJobs (hU : UserCode env (QuietStep n)) {names : List JobName}
    (hn : n ∉ names) (atFront : Bool) :
    (enqueueMultipleJobs env q names atFront).Steps (QuietStep n) fun _ => True := by
  refine (getMany_steps (fun w => Quiet.refl w) env names).bind fun jobs hjobs =>
    Prog.Steps.forEach fun job hjob => ?_
  cases job with
  | none => trivial
  | some j =>
      have hj : j.name ≠ n := fun h => hn (h ▸ hjobs j hjob)
      have hsave : (j.save false).Steps (ExecOr q.name j.name (QuietStep n)) (Named j.name) :=
        save_steps false rfl
      refine (After.get_steps (Q := fun r => r.1.name = j.name) (quiet_of_exec hsave hj)
        fun _ _ h => h).bind fun r hr => ?_
      have hr' : r.1.name ≠ n := by
        rw [hr]
        exact hj
      exact (quiet_enqueueJob hU q hr' atFront).bind fun _ _ => trivial

/-- `job_action` with `ENQUEUE` of another job. -/
theorem shrinking_jobActionEnqueue (hU : UserCode env (QuietStep n)) (hj : j.name ≠ n) :
    (jobActionEnqueue env q j).Steps (ShrinkStep n) fun _ => True :=
  (shrinking_deleteJob j.name false).bind fun _ _ =>
    (shrinking_of_quiet (quiet_enqueueJob hU q hj false)).bind fun _ _ => trivial

end Others

/-! ## Runs -/

/-- The states from which an operation changes the status of the job as documented. -/
def Orderly (env : Env) (n : JobName) (w : World) : Op → Prop
  | .create q a when' _ => JobModel.createError env a w = none →
      JobModel.nameFor a q.name w.now = n → Creatable env n q a when' w
  | .enqueue q j _ => j.name = n →
      Enqueueable n q w ∧ (q.isAsync = false → Storable env j)
  | .requeue _ names _ => n ∉ names
  | .actionEnqueue _ j => j.name ≠ n
  | .prepare _ j _ => j.name = n → At n (some .queued) w
  | .success _ j _ _ _ => j.name = n → w.status n = some .started
  | .finish _ j _ => j.name = n → w.status n = some .started ∧ j.status = .started
  | .failure _ status j _ => Next .started status ∧ (j.name = n → w.status n = some .started)
  | .cancel q m => m = n → Cancelable env n q w
  | .clean q timestamp => Cleanable n q timestamp w
  | _ => True

/-- Every operation, started in order, follows the lifecycle in each of its steps and keeps the
invariant. -/
theorem op_proper {env : Env} {n : JobName} (hU : UserCode env (QuietStep n)) {w₀ : World}
    (hw₀ : Placed n w₀) (op : Op) (h : Orderly env n w₀ op) :
    Proper n (fun w => w = w₀) (op.program env) fun _ => Placed n := by
  have hignore : ∀ {α : Type} {p : Py α}, Proper n (fun w => w = w₀) p (fun _ => Placed n) →
      Proper n (fun w => w = w₀) (p >>= fun _ => pure ()) fun _ => Placed n :=
    fun hp => hp.bind fun _ => Prog.Steady.ret fun _ => id
  have hshrinking : ∀ {α : Type} {p : Py α}, p.Steps (ShrinkStep n) (fun _ => True) →
      Proper n (fun w => w = w₀) p fun _ => Placed n :=
    fun hp => (proper_of_shrinking hp).pre fun w hw => hw ▸ hw₀
  cases op with
  | tick d => exact hshrinking (Prog.Steps.write fun _ => shrinks_advance d)
  | create q a when' atFront => exact hignore (createAndEnqueueJob_proper hU hw₀ h atFront)
  | enqueue q j atFront =>
      refine hignore ?_
      by_cases hj : j.name = n
      · exact (enqueueJob_proper hU hj (h hj).2 atFront).pre fun w hw => hw ▸ (h hj).1
      · exact hshrinking (shrinking_of_quiet (quiet_enqueueJob hU q hj atFront))
  | requeue q names atFront =>
      exact hshrinking (shrinking_of_quiet (quiet_enqueueMultipleJobs hU h atFront))
  | actionEnqueue q j => exact hshrinking (shrinking_jobActionEnqueue hU h)
  | start queues timeout worker fuel =>
      exact (startNext_proper queues timeout worker fuel).pre fun w hw => hw ▸ hw₀
  | prepare q j worker =>
      exact hignore ((prepare_proper worker q).pre fun w hw => ⟨hw ▸ hw₀, hw ▸ h⟩)
  | success q j v ttl resultTtl =>
      exact hignore ((success_proper v ttl resultTtl).pre fun w hw => ⟨hw ▸ hw₀, hw ▸ h⟩)
  | finish q j v =>
      exact (finishJob_proper v fun hj => (h hj).2).pre fun w hw =>
        ⟨hw ▸ hw₀, fun hj => hw ▸ (h hj).1⟩
  | failure q status j exc =>
      exact hignore ((failure_proper h.1 exc).pre fun w hw => ⟨hw ▸ hw₀, hw ▸ h.2⟩)
  | cancel q m => exact (cancelJob_proper m).pre fun w hw => ⟨hw ▸ hw₀, hw ▸ h⟩
  | delete q m e => exact hshrinking (shrinking_deleteJob m e)
  | clean q timestamp =>
      exact (cleanRegistries_proper hU timestamp).pre fun w hw => ⟨hw ▸ hw₀, hw ▸ h⟩
  | count q => exact hignore (hshrinking (shrinking_of_quiet (quiet_countOf _)))
  | list q => exact hignore (hshrinking (shrinking_of_quiet (quiet_getAllJobNames q)))
  | clear q k => exact hshrinking (shrinking_clearRegistry ⟨q.name, k⟩)

/-- An explicit re-enqueue of the job. -/
def Reenqueues (n : JobName) : Op → Prop
  | .requeue _ names _ => n ∈ names
  | .actionEnqueue _ j => j.name = n
  | _ => False

/-- **The lifecycle.** In a run whose operations find the job in order, every step of every
operation changes the stored status of the job as `JobStatus` documents. -/
theorem follows_along {env : Env} {n : JobName} (hU : UserCode env (QuietStep n)) {w : World}
    {l : List Op} (hw : Placed n w) (hl : Run.Meets (Op.step env) (Orderly env n) w l) :
    Run.Meets (Op.step env) (fun w op => (op.program env).Walks (Documented n) w) w l := by
  induction l generalizing w with
  | nil => trivial
  | cons op l ih =>
      obtain ⟨hwalks, hplaced⟩ := (op_proper hU hw op hl.1).ends rfl
      exact ⟨hwalks.mono fun _ _ => Follows.documented, ih hplaced hl.2⟩

theorem placed_init (n : JobName) (now : Int) : Placed n (World.init now) := by
  refine Unplaced.placed fun q k _ h => ?_
  rw [World.inRegistry_iff] at h
  cases h

/-- A job that is created, executed and finished. -/
def sampleRun : List Op :=
  [.create Sample.queue { Sample.args "ok" with name := some "j" } .none false,
    .start [Sample.queue] none "w" 1,
    .finish Sample.queue ((Sample.job "j").prepared "w" 0) .none]

theorem sample_follows :
    Run.Meets (Op.step Sample.env) (fun w op => (op.program Sample.env).Walks (Documented "j") w)
      (World.init 0) sampleRun := by
  refine follows_along (Sample.userCode _) (placed_init "j" 0) ⟨fun _ _ => ⟨rfl, ?_, ?_⟩, trivial,
    fun _ => ⟨by decide +kernel, rfl⟩, trivial⟩
  · intro q k _ h
    rw [World.inRegistry_iff] at h
    cases h
  · intro h
    cases h

/-- `cancel_job` marks a job that still waits for its time as stopped. -/
theorem not_walks_cancelJob {env : Env} {q : Queue} {w : World} {n : JobName} {j : JobModel}
    (hfetch : JobModel.fetch env w n = some j) (hj : j.status = .scheduled) :
    ¬ (q.cancelJob env n).Walks (Documented n) w := by
  intro h
  rw [Queue.cancelJob, JobModel.get, Prog.walks_read_bind, hfetch] at h
  obtain ⟨-, hrest⟩ := h
  dsimp only at hrest
  rw [if_neg (by rw [hj]; simp)] at hrest
  have hstep : Documented n w (q.removeFromRegistries n
      (w.hsetStatus j.name (Queue.cancelStatus j))) := hrest.1
  have hstatus : (q.removeFromRegistries n
      (w.hsetStatus j.name (Queue.cancelStatus j))).status n = some .stopped := by
    show (w.hsetStatus j.name (Queue.cancelStatus j)).status n = _
    rw [World.status_hsetStatus, if_pos (JobModel.name_of_fetch hfetch).symm, Queue.cancelStatus,
      if_neg (by rw [hj]; simp)]
  rcases hstep.stopped hstatus with hs | hs <;> rw [status_of_fetch hfetch, hj] at hs <;> cases hs

/-- A run without any re-enqueue in which a job that never ran is marked stopped. -/
theorem not_always_follows : ¬ ∀ (n : JobName) (l : List Op), (∀ op ∈ l, ¬ Reenqueues n op) →
    Run.Meets (Op.step Sample.env) (fun w op => (op.program Sample.env).Walks (Documented n) w)
      (World.init 0) l := by
  intro h
  have hrun := h "j" [.create Sample.queue { Sample.args "ok" with name := some "j" }
    (.datetime (.aware 5)) false, .cancel Sample.queue "j"] (by simp [Reenqueues])
  obtain ⟨-, hcancel, -⟩ := hrun
  have hfetch : ∃ j, JobModel.fetch Sample.env (Op.step Sample.env (World.init 0)
      (.create Sample.queue { Sample.args "ok" with name := some "j" } (.datetime (.aware 5)) false)) "j"
        = some j ∧ j.status = .scheduled := ⟨_, rfl, rfl⟩
  obtain ⟨j, hj, hstatus⟩ := hfetch
  exact not_walks_cancelJob hj hstatus hcancel

end DailyScheduler.Lifecycle
