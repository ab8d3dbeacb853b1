import DailyScheduler.Concurrency.Dequeue
import DailyScheduler.Lib.Run
import DailyScheduler.Model.Operations
import DailyScheduler.Model.Sample

set_option autoImplicit false

/-! # A job is in one registry at a time

Every operation puts a job into one registry of its queue and takes it out of some of the
others, those from which its author expected it to come. So a job stays in at most one
registry as long as each operation finds it where it expects it, which is a condition on the
registries before the operation (`Fits`).
-/

namespace DailyScheduler.OnePlace

open AtomicProg

/-- The registries of which a job is to be in at most one. -/
def places : List RegistryKind := [.queued, .scheduled, .active, .finished, .canceled]

/-- Every name is in at most one of the places of the queue `q`. -/
def Exclusive (q : QueueName) (w : World) : Prop :=
  ∀ n, ∀ k ∈ places, ∀ k' ∈ places, w.inRegistry q k n → w.inRegistry q k' n → k = k'

/-- The name is in none of the registries `ks`. -/
def NotIn (q : QueueName) (ks : List RegistryKind) (n : JobName) (w : World) : Prop :=
  ∀ k ∈ ks, ¬ w.inRegistry q k n

instance (q : QueueName) (ks : List RegistryKind) (n : JobName) (w : World) :
    Decidable (NotIn q ks n w) :=
  inferInstanceAs (Decidable (∀ k ∈ ks, ¬ w.inRegistry q k n))

/-! ## What adding and removing does -/

theorem Exclusive.mono {q : QueueName} {w w' : World} (h : Exclusive q w)
    (hsub : ∀ k ∈ places, ∀ n, w'.inRegistry q k n → w.inRegistry q k n) : Exclusive q w' := by
  intro n k hk k' hk' h1 h2
  exact h n k hk k' hk' (hsub k hk n h1) (hsub k' hk' n h2)

theorem Exclusive.of_registry {q : QueueName} {w w' : World} (h : Exclusive q w)
    (heq : w'.registry = w.registry) : Exclusive q w' := by
  refine h.mono fun k _ n hn => ?_
  rw [World.inRegistry_iff, heq] at hn
  exact hn

/-- Adding a name to one place keeps the property when the name is in none of the others. -/
theorem Exclusive.zadd {q : QueueName} {w : World} (h : Exclusive q w) {k : RegistryKind}
    {n : JobName} (s : Int) (hn : ∀ k' ∈ places, k' ≠ k → ¬ w.inRegistry q k' n) :
    Exclusive q (w.zadd q k n s) := by
  intro m k1 hk1 k2 hk2 h1 h2
  rw [World.inRegistry_zadd] at h1 h2
  by_cases hm : m = n
  · subst hm
    have only : ∀ k' ∈ places, (q = q ∧ k' = k ∧ m = m) ∨ w.inRegistry q k' m → k' = k := by
      intro k' hk' h'
      by_contra hne
      rcases h' with h' | h'
      · exact hne h'.2.1
      · exact hn k' hk' hne h'
    rw [only k1 hk1 h1, only k2 hk2 h2]
  · have h1' := h1.resolve_left fun h' => hm h'.2.2
    have h2' := h2.resolve_left fun h' => hm h'.2.2
    exact h m k1 hk1 k2 hk2 h1' h2'

theorem Exclusive.zrem {q : QueueName} {w : World} (h : Exclusive q w) (k : RegistryKind)
    (n : JobName) : Exclusive q (w.zrem q k n) := by
  refine h.mono fun k' _ m hm => ?_
  rw [World.inRegistry_zrem] at hm
  exact hm.2

/-! ## The operations -/

theorem Exclusive.enqueueJob {env : Env} {q : Queue} (hq : q.isAsync = true) {job : JobModel}
    {atFront : Bool} {w : World} (h : Exclusive q.name w)
    (hfree : job.serializable = true → NotIn q.name [.active, .finished, .canceled] job.name w) :
    Exclusive q.name ((q.enqueueJob env job atFront).exec w) := by
  cases hs : job.serializable with
  | false =>
      rw [Prog.exec_eq_of_run (Queue.run_enqueueJob_error env q hs atFront w)]
      exact h
  | true =>
      rw [Prog.exec_eq_of_run (Queue.run_enqueueJob env hq hs atFront w)]
      have hsaved : Exclusive q.name (w.saveJob (Queue.enqueuedModel job w.now) false) :=
        h.of_registry rfl
      refine (hsaved.zrem .scheduled job.name).zadd _ fun k hk hne hn => ?_
      -- the name left the scheduled registry and was in none of the three others
      rw [World.inRegistry_zrem] at hn
      have hn' : w.inRegistry q.name k job.name := hn.2
      have hks : k ∈ [RegistryKind.active, .finished, .canceled] := by
        revert hk hne
        have := fun h' => hn.1 ⟨rfl, h', rfl⟩
        cases k <;> simp_all [places]
      exact hfree hs k hks hn'

/-- The places in which `create_and_enqueue_job` does not look for the job. -/
def elsewhere : Queue.When → List RegistryKind
  | .none => [.active, .finished, .canceled]
  | .datetime _ => [.queued, .active, .finished, .canceled]
  | .other => []

theorem Exclusive.create {env : Env} {q : Queue} (hq : q.isAsync = true) {a : JobArgs}
    {when' : Queue.When} {atFront : Bool} {w : World} (h : Exclusive q.name w)
    (hfree : JobModel.createError env a w = none →
      NotIn q.name (elsewhere when') (JobModel.nameFor a q.name w.now) w) :
    Exclusive q.name ((q.createAndEnqueueJob env a when' atFront).exec w) := by
  rw [Queue.exec_createAndEnqueueJob]
  cases hc : JobModel.createError env a w with
  | some x => exact h
  | none =>
      have hser := JobModel.serializable_of_createError hc q.name (Queue.statusFor when') w.now
      have hsaved : Exclusive q.name (w.saveJob
          (JobModel.fresh env a q.name (Queue.statusFor when') w.now) false) := h.of_registry rfl
      have hnot := hfree hc
      cases when' with
      | none => exact hsaved.enqueueJob hq fun _ => hnot
      | datetime t =>
          have hser' : (JobModel.fresh env a q.name (Queue.statusFor (.datetime t))
              w.now).saved.serializable = true := hser
          show Exclusive q.name ((q.placeJob env _ (.datetime t) atFront).exec _)
          rw [Prog.exec_eq_of_run (Queue.run_placeJob_datetime env q hser' t atFront _)]
          refine Exclusive.zadd (hsaved.of_registry rfl) _ fun k hk hne hn => ?_
          have hks : k ∈ elsewhere (.datetime t) := by
            cases k <;> simp_all [places, elsewhere]
          exact hnot k hks hn
      | other => exact hsaved

/-- Putting one of several jobs back does not put it anywhere else than into the queue. -/
theorem notIn_enqueueJob {env : Env} {q : Queue} (hq : q.isAsync = true) {job : JobModel}
    {atFront : Bool} {w : World} {ks : List RegistryKind} {n : JobName}
    (hks : .queued ∉ ks) (h : NotIn q.name ks n w) :
    NotIn q.name ks n ((q.enqueueJob env job atFront).exec w) := by
  cases hs : job.serializable with
  | false =>
      rw [Prog.exec_eq_of_run (Queue.run_enqueueJob_error env q hs atFront w)]
      exact h
  | true =>
      rw [Prog.exec_eq_of_run (Queue.run_enqueueJob env hq hs atFront w)]
      intro k hk hn
      have hk' : k ≠ .queued := fun h' => hks (h' ▸ hk)
      have hn' := ((World.inRegistry_zadd ..).1 hn).resolve_left fun h' => hk' h'.2.1
      rw [World.inRegistry_zrem] at hn'
      exact h k hk hn'.2

theorem Exclusive.requeue {env : Env} {q : Queue} (hq : q.isAsync = true)
    {names : List JobName} {atFront : Bool} {w : World} (h : Exclusive q.name w)
    (hfree : ∀ n ∈ names, w.loadable n → NotIn q.name [.active, .finished, .canceled] n w) :
    Exclusive q.name ((enqueueMultipleJobs env q names atFront).exec w) := by
  -- the loop leaves the names still to come where they were
  have hloop : Exclusive q.name ((enqueueMultipleJobs env q names atFront).exec w) ∧
      ∀ n ∈ names, w.loadable n → NotIn q.name [.active, .finished, .canceled] n
        ((enqueueMultipleJobs env q names atFront).exec w) := by
    refine Queue.exec_enqueueMultipleJobs_keeps (I := fun w' => Exclusive q.name w' ∧ ∀ n ∈ names,
      w.loadable n → NotIn q.name [.active, .finished, .canceled] n w') ⟨h, hfree⟩ ?_
    intro j hj hfetch hs w' hw'
    have hsaved : Exclusive q.name (w'.saveJob j false) := hw'.1.of_registry rfl
    refine ⟨⟨hsaved, hw'.2⟩, hsaved.enqueueJob hq fun _ => ?_, fun n hn hl => ?_⟩
    · have hl : w.loadable j.name := by
        by_contra hnot
        rw [JobModel.fetch_eq_none_iff.2 hnot] at hfetch
        cases hfetch
      exact hw'.2 j.name hj hl
    · exact notIn_enqueueJob hq (by decide) (hw'.2 n hn hl)
  exact hloop.1

/-! ## Executions -/

/-- What is known of a name once it is popped. -/
def Popped (q : QueueName) (q' : QueueName) (n : JobName) (c : Config World Event) : Prop :=
  q' = q → NotIn q places n c.1

theorem dequeueRule (q : QueueName) (qs : List QueueName) :
    DequeueRule (Side.alone World Event) (fun c => Exclusive q c.1)
      { Seen := fun _ _ => True, Gone := fun n c => c.1.jobExists n = false, Held := Popped q,
        Lost := fun _ _ => True, Given := Popped q } qs := by
  refine DequeueRule.of_alone (fun w t q' n _ h _ => ?_) (fun w w' t q' n _ h hp => ?_)
    (fun w t e _ h => h) (fun w t q' n _ h => h)
  · refine h.mono fun k _ m hm => ?_
    rw [World.inRegistry_zrem] at hm
    exact hm.2
  · obtain ⟨z, -, hin, hscore⟩ := World.zpopmin_some hp
    have hsub : ∀ k m, w'.inRegistry q k m → w.inRegistry q k m := by
      intro k m hm
      rw [World.inRegistry_iff, hscore] at hm
      rw [World.inRegistry_iff]
      split at hm
      · cases hm
      · exact hm
    refine ⟨h.mono fun k _ => hsub k, ?_⟩
    rintro rfl k hk hn
    -- the name was in the queue, hence nowhere else, and it left the queue
    have hk' : k = .queued := h n k hk .queued (by decide) (hsub k n hn) hin
    subst hk'
    rw [World.inRegistry_iff, hscore] at hn
    simp at hn

theorem Exclusive.prepare {q : Queue} {job : JobModel} {worker : WorkerName} {w : World}
    (h : Exclusive q.name w) (hn : NotIn q.name places job.name w) :
    Exclusive q.name ((job.prepareForExecution worker q.activeJobRegistry).exec w) := by
  rw [JobModel.exec_prepareForExecution]
  refine Exclusive.of_registry (w := job.registered q.activeJobRegistry w) ?_ (by simp)
  exact h.zadd _ fun k hk _ => hn k hk

theorem Exclusive.start {env : Env} {q : Queue} {timeout : Option Int} {worker : WorkerName}
    {fuel : Nat} {w : World} (h : Exclusive q.name w) :
    Exclusive q.name ((Op.startNext env [q] timeout worker fuel).exec w) := by
  have hends := (Side.alone_safe_iff _ w []).1
    ((dequeueRule q.name ([q].map Queue.name)).dequeueAny_triple env timeout fuel (w, []) h)
  unfold Side.Ends at hends
  refine Prog.exec_bind_keeps ?_ fun r hr => ?_
  · rw [Prog.exec]
    cases hv : ((Queue.dequeueAny env [q] timeout fuel).run w).val with
    | ok a => rw [hv] at hends; exact hends.1
    | error x => rw [hv] at hends; exact hends
  · rw [hr] at hends
    obtain ⟨hI, hgot⟩ := hends
    cases r with
    | none => exact hI
    | some p =>
        obtain ⟨job, q'⟩ := p
        obtain ⟨hq, -, hgiven⟩ := hgot job q' rfl
        rw [List.mem_singleton] at hq
        subst hq
        show Exclusive q'.name ((After.get _ >>= fun _ => pure ()).exec _)
        rw [exec_ignore, After.exec_get]
        exact Exclusive.prepare hI (hgiven rfl)

theorem Exclusive.success {q : Queue} {job : JobModel} {v : PyValue} {ttl resultTtl : Int}
    {w : World} (h : Exclusive q.name w)
    (hn : ttl = 0 ∨ NotIn q.name [.queued, .scheduled, .canceled] job.name w) :
    Exclusive q.name ((q.jobHandleSuccess job v ttl resultTtl).exec w) := by
  refine Exclusive.of_registry ?_ (Queue.registry_exec_jobHandleSuccess q job v ttl resultTtl w)
  have hout : Exclusive q.name (w.zrem q.name .active job.name) := h.zrem _ _
  unfold JobModel.moved
  dsimp only
  split
  · exact hout
  · rename_i httl
    refine hout.zadd _ fun k hk hne hin => ?_
    obtain ⟨hleft, hin⟩ := (World.inRegistry_zrem ..).1 hin
    have hks : k ∈ [RegistryKind.queued, .scheduled, .canceled] := by
      have hact : k ≠ .active := fun h' => hleft ⟨rfl, h', rfl⟩
      have hfin : k ≠ .finished := hne
      cases k <;> simp_all [places]
    exact hn.resolve_left httl k hks hin

theorem Exclusive.failure {env : Env} {q : Queue} {status : JobStatus} {job : JobModel}
    {s : String} {w : World} (h : Exclusive q.name w) :
    Exclusive q.name ((q.jobHandleFailure env status job s).exec w) := by
  refine Exclusive.of_registry ?_ (Queue.registry_exec_jobHandleFailure env q status job s w)
  have hout : Exclusive q.name (w.zrem q.name .active job.name) := h.zrem _ _
  unfold JobModel.moved
  dsimp only
  split
  · exact hout
  · -- the failed registry is none of the places
    refine hout.mono fun k hk n hn => ?_
    refine ((World.inRegistry_zadd ..).1 hn).resolve_left fun h' => ?_
    have hfailed : k = .failed := h'.2.1
    subst hfailed
    exact absurd hk (by decide)

/-- `_remove_from_registries` leaves the name in no place. -/
theorem notIn_removeFromRegistries (q : Queue) (n : JobName) (w : World) :
    NotIn q.name places n (q.removeFromRegistries n w) := by
  intro k hk hn
  simp only [Queue.removeFromRegistries, World.inRegistry_zrem] at hn
  revert hk
  cases k <;> simp_all [places]

theorem Exclusive.removed {q : Queue} {n : JobName} {w : World} (h : Exclusive q.name w) :
    Exclusive q.name (q.removeFromRegistries n w) :=
  ((((h.zrem _ _).zrem _ _).zrem _ _).zrem _ _).zrem _ _

theorem Exclusive.cancel {env : Env} {q : Queue} {n : JobName} {w : World}
    (h : Exclusive q.name w) : Exclusive q.name ((q.cancelJob env n).exec w) := by
  rw [Queue.exec_cancelJob]
  cases JobModel.fetch env w n with
  | none => exact h
  | some job =>
      have hout : Exclusive q.name (q.removeFromRegistries n
          (w.hsetStatus job.name (Queue.cancelStatus job))) :=
        Exclusive.removed (h.of_registry rfl)
      have hnot := notIn_removeFromRegistries q n (w.hsetStatus job.name (Queue.cancelStatus job))
      show Exclusive q.name (if job.status = .canceled then w else q.canceledWorld env n job w)
      split
      · exact h
      · unfold Queue.canceledWorld
        dsimp only
        split
        · exact hout.zadd _ fun k hk _ => hnot k hk
        · exact hout.zadd _ fun k hk _ => hnot k hk

theorem Exclusive.delete {env : Env} {q : Queue} {n : JobName} {e : Bool} {w : World}
    (h : Exclusive q.name w) : Exclusive q.name ((q.deleteJob env n e).exec w) := by
  rw [Prog.exec_eq_of_run (Queue.run_deleteJob env q n e w)]
  have hall : ∀ w', w'.registry = w.registry → Exclusive q.name (q.removeFromAll n w') :=
    fun w' hw' => (h.of_registry hw').removed.zrem _ _
  unfold Queue.deletedWorld
  cases (if e then JobModel.fetch env w n else none) with
  | none => exact hall w rfl
  | some job =>
      dsimp only
      split
      · exact hall _ rfl
      · refine (hall w rfl).of_registry ?_
        unfold Queue.expireIn
        split <;> rfl

/-- `job_action` takes the job out of every registry before it enqueues it. -/
theorem Exclusive.actionEnqueue {env : Env} {q : Queue} (hq : q.isAsync = true)
    {job : JobModel} {w : World} (h : Exclusive q.name w) :
    Exclusive q.name ((jobActionEnqueue env q job).exec w) := by
  show Exclusive q.name ((q.deleteJob env job.name false >>= fun _ =>
    q.enqueueJob env job false >>= fun _ => pure ()).exec w)
  refine Prog.exec_bind_keeps h.delete fun _ _ => ?_
  rw [exec_ignore]
  refine h.delete.enqueueJob hq fun _ k hk hn => ?_
  rw [Prog.exec_eq_of_run (Queue.run_deleteJob env q job.name false w)] at hn
  have hn' := ((World.inRegistry_zrem ..).1 hn).2
  refine notIn_removeFromRegistries q job.name w k ?_ hn'
  revert hk
  cases k <;> decide

/-! ## Runs -/

/-- The operations of the queue `q`, each in a world where the job is where the operation
expects it: a job that is put into the queue or scheduled is in no other place than those the
operation takes it out of, and the same for a job whose execution ends successfully. -/
def Fits (env : Env) (q : Queue) (w : World) : Op → Prop
  | .tick _ => True
  | .create q' a when' _ => q' = q ∧ (JobModel.createError env a w = none →
      NotIn q.name (elsewhere when') (JobModel.nameFor a q.name w.now) w)
  | .enqueue q' job _ => q' = q ∧ (job.serializable = true →
      NotIn q.name [.active, .finished, .canceled] job.name w)
  | .requeue q' names _ => q' = q ∧ ∀ n ∈ names, w.loadable n →
      NotIn q.name [.active, .finished, .canceled] n w
  | .start queues _ _ _ => queues = [q]
  | .success q' job _ ttl _ => q' = q ∧
      (ttl = 0 ∨ NotIn q.name [.queued, .scheduled, .canceled] job.name w)
  | .failure q' _ _ _ => q' = q
  | .actionEnqueue q' _ => q' = q
  | .cancel q' _ => q' = q
  | .delete q' _ _ => q' = q
  | _ => False

/-- One operation that fits keeps every job in at most one place. -/
theorem Exclusive.step {env : Env} {q : Queue} (hq : q.isAsync = true) {w : World} {op : Op}
    (h : Exclusive q.name w) (hfit : Fits env q w op) : Exclusive q.name (op.step env w) := by
  cases op with
  | tick d => exact h.of_registry rfl
  | create q' a when' atFront =>
      obtain ⟨rfl, hfree⟩ := hfit
      rw [Op.step_create]
      exact h.create hq hfree
  | enqueue q' job atFront =>
      obtain ⟨rfl, hfree⟩ := hfit
      rw [Op.step_enqueue]
      exact h.enqueueJob hq hfree
  | requeue q' names atFront =>
      obtain ⟨rfl, hfree⟩ := hfit
      exact h.requeue hq hfree
  | start queues timeout worker fuel =>
      have hqs : queues = [q] := hfit
      subst hqs
      exact h.start
  | success q' job v ttl resultTtl =>
      obtain ⟨rfl, hn⟩ := hfit
      rw [Op.step_success]
      exact h.success hn
  | failure q' status job s =>
      have hq' : q' = q := hfit
      subst hq'
      rw [Op.step_failure]
      exact h.failure
  | cancel q' n =>
      have hq' : q' = q := hfit
      subst hq'
      exact h.cancel
  | delete q' n e =>
      have hq' : q' = q := hfit
      subst hq'
      exact h.delete
  | actionEnqueue q' job =>
      have hq' : q' = q := hfit
      subst hq'
      exact h.actionEnqueue hq
  | prepare => exact hfit.elim
  | finish => exact hfit.elim
  | clean => exact hfit.elim
  | count => exact hfit.elim
  | list => exact hfit.elim
  | clear => exact hfit.elim

/-- **Each job is in at most one registry**, at every boundary between the operations of a run
in which every operation finds its job where it expects it. -/
theorem in_one_registry_along (env : Env) {q : Queue} (hq : q.isAsync = true) {w : World}
    {l : List Op} (h : Exclusive q.name w) (hfits : Run.Meets (Op.step env) (Fits env q) w l) :
    Run.Along (Op.step env) (Exclusive q.name) w l :=
  Run.along_of_step (fun _ _ hw hfit => hw.step hq hfit) h hfits

/-- The arguments of a job named `a`. -/
def sampleArgs : JobArgs := { Sample.args "ok" with name := some "a" }

/-- A job is created, dequeued and executed. -/
def sampleRun : List Op :=
  [.create Sample.queue sampleArgs .none false, .start [Sample.queue] none "w" 1,
    .success Sample.queue (Sample.job "a") .none 600 600]

theorem sample_in_one_registry_along :
    Run.Along (Op.step Sample.env) (Exclusive Sample.queue.name) (World.init 0) sampleRun :=
  in_one_registry_along Sample.env rfl (fun _ _ _ _ _ h => by cases h)
    ⟨⟨rfl, fun _ => by decide⟩, rfl, ⟨rfl, Or.inr (by decide)⟩, trivial⟩

/-- A finished job that `_enqueue_multiple_jobs` puts back is queued and finished at once. -/
theorem requeued_in_two_registries :
    ¬ Run.Along (Op.step Sample.env) (Exclusive Sample.queue.name) (World.init 0)
        (sampleRun ++ [.requeue Sample.queue ["a"] false]) := by
  intro h
  have hlast := h.last
  exact absurd (hlast "a" .queued (by decide) .finished (by decide) (by decide) (by decide))
    (by decide)

end DailyScheduler.OnePlace
