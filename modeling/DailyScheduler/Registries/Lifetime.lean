import DailyScheduler.Model.Effects
import DailyScheduler.Execution.Performs

set_option autoImplicit false

/-! # How long a name and its record are kept after an execution

When an execution ends, `after_execution` adds the job's name to the finished or the failed
registry with a score, and `expire` gives the record a deadline. The score is made from
`job_info_ttl` or `DEFAULT_FAILURE_TTL`. A worker makes the deadline from `success_ttl`, and after
a failure it makes none; `enqueue_job` on a queue without workers makes it from `job_info_ttl`.
-/

namespace DailyScheduler.Lifetime

open AtomicProg

/-! ## Lifetimes -/

/-- The record of a job: `none` when there is none, else its deadline, if it has one. -/
def record (w : World) (n : JobName) : Option (Option Int) := (w.jobs.entry n).map Prod.snd

/-- From now on the name is in the registry, once that is cleaned up, exactly as long as the
record exists. -/
def KeptTogether (r : Registry) (n : JobName) (w : World) : Prop :=
  ∀ d : Nat, ((r.cleanup none).exec (w.advance d)).inRegistry r.queue r.kind n ↔
    (w.advance d).jobExists n = true

/-- The time from which on a cleanup removes an entry with the score `s`, which is not negative:
the score is compared with whole seconds. -/
def removedFrom (s : Int) : Int := if s ≤ 0 then -999999 else secs (-((-s) / 1000000))

/-- An entry with the score `score` and a record with the deadline `deadline` end at the same time,
from `now` on. -/
def SameLifetime (now : Int) (score : Option Int) (record : Option (Option Int)) : Prop :=
  match score, record with
  | none, none => True
  | none, some none => False
  | none, some (some d) => d ≤ now
  | some s, none => 0 ≤ s ∧ removedFrom s ≤ now
  | some s, some none => s < 0
  | some s, some (some d) =>
      0 ≤ s ∧ (removedFrom s = d ∨ (removedFrom s ≤ now ∧ d ≤ now))

theorem le_currentTimestamp_iff {s t : Int} (hs : 0 ≤ s) :
    s ≤ currentTimestamp t ↔ removedFrom s ≤ t := by
  unfold currentTimestamp removedFrom secs
  have hsign : Int.sign 1000000 = 1 := by decide
  rw [Int.tdiv_eq_ediv, hsign]
  split <;> split <;> omega

/-- A score in whole seconds is a time. -/
theorem removedFrom_secs {n : Int} (h : 0 < n) : removedFrom (secs n) = secs n := by
  unfold removedFrom secs
  split <;> omega

theorem exec_cleanup (r : Registry) (w : World) : (r.cleanup none).exec w = r.cleaned none w :=
  Prog.exec_eq_of_run (Registry.run_cleanup r none w)

/-- An entry is there until the time `removedFrom`, or for ever when its score is negative. -/
theorem inRegistry_cleanup {r : Registry} (hr : r.expires = true) (n : JobName) (w : World) :
    ((r.cleanup none).exec w).inRegistry r.queue r.kind n ↔
      ∃ s, (w.registry r.queue r.kind).score n = some s ∧ (0 ≤ s → w.now < removedFrom s) := by
  rw [exec_cleanup, World.inRegistry_iff, Registry.score_cleaned, if_pos ⟨hr, rfl, rfl⟩]
  have hscore : Registry.cleanupScore none w = currentTimestamp w.now := rfl
  rw [hscore]
  cases hs : (w.registry r.queue r.kind).score n with
  | none => simp
  | some s =>
      have hiff : (0 ≤ s ∧ s ≤ currentTimestamp w.now) ↔ ¬ (0 ≤ s → w.now < removedFrom s) := by
        rw [Classical.not_imp, not_lt]
        exact and_congr_right le_currentTimestamp_iff
      by_cases h : 0 ≤ s → w.now < removedFrom s
      · have hkeep : ¬ (0 ≤ s ∧ s ≤ currentTimestamp w.now) := fun hc => hiff.1 hc h
        simpa [Option.filter, hkeep] using h
      · have hdrop : 0 ≤ s ∧ s ≤ currentTimestamp w.now := hiff.2 h
        have hover : removedFrom s ≤ w.now := not_lt.1 (Classical.not_imp.1 h).2
        simpa [Option.filter, hdrop] using hover

/-- A record exists until its deadline. -/
theorem jobExists_advance (n : JobName) (w : World) (d : Nat) :
    (w.advance d).jobExists n = true ↔
      ∃ o, record w n = some o ∧ ∀ t, o = some t → w.now + d < t := by
  unfold World.jobExists World.advance TtlMap.contains TtlMap.purge record
  dsimp only
  rcases w.jobs.entry n with _ | ⟨v, _ | t⟩
  · simp
  · simp [Option.filter]
  · by_cases h : w.now + d < t <;> simp [Option.filter, h]

/-- The score and the deadline decide. -/
theorem keptTogether_iff {r : Registry} (hr : r.expires = true) (n : JobName) (w : World) :
    KeptTogether r n w ↔
      SameLifetime w.now ((w.registry r.queue r.kind).score n) (record w n) := by
  have hiff : KeptTogether r n w ↔ ∀ d : Nat,
      (∃ s, (w.registry r.queue r.kind).score n = some s ∧
        (0 ≤ s → w.now + d < removedFrom s)) ↔
      ∃ o, record w n = some o ∧ ∀ t, o = some t → w.now + d < t := by
    refine forall_congr' fun d => ?_
    rw [inRegistry_cleanup hr, jobExists_advance]
    rfl
  rw [hiff]
  -- the moments that tell the two lifetimes apart
  have hat : ∀ e : Int, w.now ≤ e → ∃ d : Nat, w.now + d = e :=
    fun e he => ⟨(e - w.now).toNat, by omega⟩
  unfold SameLifetime
  cases (w.registry r.queue r.kind).score n with
  | none =>
      rcases record w n with _ | _ | t
      · simp
      · simp
      · simp only [reduceCtorEq, false_and, exists_false, Option.some.injEq, exists_eq_left',
          forall_eq', false_iff, not_lt]
        exact ⟨fun h => by simpa using h 0, fun h d => by omega⟩
  | some s =>
      rcases record w n with _ | _ | t
      · simp only [Option.some.injEq, exists_eq_left', reduceCtorEq, false_and, exists_false,
          iff_false, Classical.not_imp, not_lt]
        exact ⟨fun h => by simpa using h 0, fun h d => ⟨h.1, by omega⟩⟩
      · simp only [Option.some.injEq, exists_eq_left', reduceCtorEq, false_implies, implies_true,
          iff_true]
        constructor
        · intro h
          by_contra hs
          obtain ⟨d, hd⟩ := hat (max w.now (removedFrom s)) (le_max_left _ _)
          have := h d (by omega)
          have := le_max_right w.now (removedFrom s)
          omega
        · intro h d hs
          omega
      · simp only [Option.some.injEq, exists_eq_left', forall_eq']
        constructor
        · intro h
          obtain ⟨d, hd⟩ := hat (max w.now t) (le_max_left _ _)
          have hend := (h d).1
          have hle := le_max_right w.now t
          have hs : 0 ≤ s := by
            by_contra hneg
            have := hend fun h0 => absurd h0 hneg
            omega
          refine ⟨hs, ?_⟩
          by_contra hne
          rw [not_or] at hne
          obtain ⟨hne, hlive⟩ := hne
          -- at the earlier of the two ends only one of them is over
          obtain ⟨d', hd'⟩ := hat (max w.now (min (removedFrom s) t)) (le_max_left _ _)
          have hboth := h d'
          have hlt : (w.now + d' < removedFrom s) ↔ w.now + d' < t :=
            ⟨fun hr => hboth.1 fun _ => hr, fun ht => hboth.2 ht hs⟩
          rw [hd'] at hlt
          omega
        · rintro ⟨hs, heq | ⟨hr, ht⟩⟩ d
          · rw [heq]
            exact ⟨fun h => h hs, fun h _ => h⟩
          · exact ⟨fun h => absurd (h hs) (by omega), fun h => absurd h (by omega)⟩

/-! ## What the end of an execution leaves behind -/

section Ending

variable {w : World} {j : JobModel} {n : JobName}

/-- The score of the name after it was added for `ttl` seconds. -/
def scoreAfter (ttl : Int) (now : Int) (old : Option Int) : Option Int :=
  if ttl = 0 then old else some (currentTimestamp now + secs ttl)

/-- The record after `expire` with `ttl`, if it was called. -/
def expiredRecord (ttl : Option Int) (now : Int) (old : Option Int) : Option (Option Int) :=
  match ttl with
  | none => some old
  | some t => if t = 0 then none else if t > 0 then some (some (now + secs t)) else some old

theorem record_saveJob (sa : Bool) (h : j.written sa .status = true) :
    record (w.saveJob j sa) j.name = some (record w j.name).join := by
  have hs : (j.storedOver sa ((w.jobs.find? j.name).getD (fun _ => none))) .status
      = some j.status := by
    simp [JobModel.storedOver, Hash.merge, h, JobModel.serialize]
  have hne := Hash.nonempty_of_field (JobField.mem_all .status) hs
  unfold record
  simp only [World.saveJob, hne, if_true, TtlMap.put, Function.update_self, Option.map_some,
    TtlMap.deadline]
  cases w.jobs.entry j.name with
  | none => rfl
  | some p => rfl

/-- `after_execution` writes the status. -/
theorem written_status_ended (status : JobStatus) (now : Int) :
    (j.ended status now).written false .status = true := by
  simp [JobModel.written, JobModel.ended, JobModel.setStatus, JobModel.setEndedAt,
    JobModel.setLastHeartbeat]

/-- `expire` acts on the deadline. -/
theorem record_expired (ttl : Int) {o : Option Int} (h : record w j.name = some o) :
    record (j.expired ttl w) j.name = expiredRecord (some ttl) w.now o := by
  unfold JobModel.expired expiredRecord
  dsimp only
  split
  · simp [record, World.deleteJob, TtlMap.erase]
  · split
    · unfold record at h ⊢
      obtain ⟨p, hp, -⟩ := Option.map_eq_some_iff.1 h
      simp [World.expireJob, TtlMap.expireAt, TtlMap.setDeadline, hp]
    · exact h

theorem registry_expired (ttl : Int) : (j.expired ttl w).registry = w.registry := by
  unfold JobModel.expired
  split
  · rfl
  · split <;> rfl

theorem now_expired (ttl : Int) : (j.expired ttl w).now = w.now := by
  unfold JobModel.expired
  split
  · rfl
  · split <;> rfl

/-- The move puts the name into the new registry. -/
theorem score_moved (q : Queue) {k : RegistryKind} (hk : k ≠ .active) (ttl : Int) :
    ((j.moved ttl q.activeJobRegistry ⟨q.name, k⟩ w).registry q.name k).score j.name
      = scoreAfter ttl w.now ((w.registry q.name k).score j.name) := by
  have hzrem : ((w.zrem q.name .active j.name).registry q.name k).score j.name
      = (w.registry q.name k).score j.name := by
    rw [World.score_zrem, if_neg fun h => hk h.2.1]
  unfold JobModel.moved scoreAfter
  dsimp only
  split
  · exact hzrem
  · rw [World.score_zadd, if_pos ⟨rfl, rfl, rfl⟩]
    rfl

theorem record_moved (ttl : Int) (prev new : Registry) :
    record (j.moved ttl prev new w) n = record w n := by
  unfold record
  rw [JobModel.moved_jobs]

theorem record_endedWorld (q : Queue) (k : RegistryKind) (ttl : Int) (status : JobStatus) :
    record (q.endedWorld k j ttl status w) j.name = some (record w j.name).join := by
  unfold Queue.endedWorld
  have hsave := record_saveJob (w := j.moved ttl q.activeJobRegistry ⟨q.name, k⟩ w)
    (j := j.ended status w.now) false (written_status_ended status w.now)
  rw [JobModel.ended_name, record_moved] at hsave
  exact hsave

theorem score_endedWorld (q : Queue) {k : RegistryKind} (hk : k ≠ .active) (ttl : Int)
    (status : JobStatus) :
    ((q.endedWorld k j ttl status w).registry q.name k).score j.name
      = scoreAfter ttl w.now ((w.registry q.name k).score j.name) := by
  unfold Queue.endedWorld
  rw [World.saveJob_registry]
  exact score_moved q hk ttl

theorem now_endedWorld (q : Queue) (k : RegistryKind) (ttl : Int) (status : JobStatus) :
    (q.endedWorld k j ttl status w).now = w.now := by
  unfold Queue.endedWorld
  rw [World.saveJob_now, JobModel.moved_now]

end Ending

/-! ## Executions -/

inductive Path where
  | worker (wk : Worker)
  | sync (atFront : Bool)

inductive Outcome where
  | success
  | failure
  deriving DecidableEq

/-- The registry of an outcome. -/
def Outcome.registry (q : Queue) : Outcome → Registry
  | .success => ⟨q.name, .finished⟩
  | .failure => ⟨q.name, .failed⟩

/-- The execution of the job of the queue `q`: by a worker, or by the client on a queue without
workers. -/
def execution (env : Env) (q : Queue) (job : JobModel) : Path → Py Unit
  | .worker wk => do
      let _ ← wk.workerPerformJob env job q
  | .sync atFront => do
      let _ ← q.enqueueJob env job atFront

/-- The part of an execution up to the end of `queue_perform_job`. -/
def performed (env : Env) (q : Queue) (job : JobModel) : Path → Py (After PyValue)
  | .worker wk => do
      let wk ← wk.workerBeforeExecution env job
      After.next (job.prepareForExecution wk.name q.activeJobRegistry) fun job _ =>
        queuePerformJob env job
  | .sync _ => do
      let now ← utcnow
      let (job, _) ← After.get ((Queue.enqueuedModel job now).save false)
      After.next (job.prepareForExecution "sync" q.activeJobRegistry) fun job _ =>
        queuePerformJob env job

/-- The part of an execution up to the end of `job_handle_success`. -/
def stored (env : Env) (q : Queue) (job : JobModel) (path : Path) : Py (After Unit) :=
  After.next (performed env q job path) fun job rv =>
    q.jobHandleSuccess job rv job.jobInfoTtl job.successTtl

/-- The execution that starts in `w` comes to the outcome, with the object `j` in the world `w'`.
It is a success when nothing was raised up to the end of `job_handle_success`, which then starts
in `w'`; otherwise `job_handle_failure` starts in `w'`. On a queue without workers only an
`Exception` is handled. -/
def Ends (env : Env) (q : Queue) (job : JobModel) (path : Path) (w : World) (out : Outcome)
    (j : JobModel) (w' : World) : Prop :=
  match out with
  | .success => ∃ rv t, (performed env q job path).run w = ⟨.ok (j, .ok rv), w', t⟩ ∧
      j.serializable = true ∧ (j.successTtl = 0 ∨ rv.encodes = true)
  | .failure => ∃ x t, (stored env q job path).run w = ⟨.ok (j, .error x), w', t⟩ ∧
      match path with
      | .worker _ => True
      | .sync _ => x.isException = true

/-! ## The object of an execution -/

/-- The objects are equal as far as keeping names and records is concerned. -/
structure Alike (j j' : JobModel) : Prop where
  name : j'.name = j.name
  jobInfoTtl : j'.jobInfoTtl = j.jobInfoTtl
  successTtl : j'.successTtl = j.successTtl

section Objects

variable {env : Env} {job j : JobModel}

/-- Any step. -/
abbrev AnyStep (_ _ : World) (_ : List Event) : Prop := True

theorem anySteps {α : Type} (p : Py α) : p.Steps AnyStep fun _ => True := Prog.Steps.any p

/-- A method that leaves an object like the job's. -/
abbrev Leaves {α : Type} (job : JobModel) (p : Py (After α)) : Prop :=
  p.Steps AnyStep fun r => Alike job r.1

theorem Leaves.next {α β : Type} {p : Py (After α)} {f : JobModel → α → Py (After β)}
    (hp : Leaves job p) (hf : ∀ j a, Alike job j → Leaves job (f j a)) :
    Leaves job (After.next p f) :=
  After.next_steps hp (fun j a h => hf j a h) fun _ _ h => h

theorem Alike.saved (h : Alike job j) : Alike job j.saved := ⟨h.1, h.2, h.3⟩
theorem Alike.prepared (h : Alike job j) (name : WorkerName) (t : Int) :
    Alike job (j.prepared name t) := ⟨h.1, h.2, h.3⟩
theorem Alike.ended (h : Alike job j) (status : JobStatus) (t : Int) :
    Alike job (j.ended status t) := ⟨h.1, h.2, h.3⟩

theorem performs_alike (env : Env) (job : JobModel) : Performs env (Alike job) AnyStep where
  saved := fun _ => Alike.saved
  metadata := fun _ _ h => ⟨h.1, h.2, h.3⟩
  same := fun _ => trivial
  save := fun _ _ _ _ => trivial
  persist := fun _ _ _ => trivial
  called := fun _ _ _ => trivial
  success := fun _ _ _ => trivial
  failure := fun _ _ _ => trivial
  user := fun _ f job _ => (anySteps (f job)).mono (fun _ _ _ => id) fun _ _ p _ => anySteps p

theorem save_leaves (hj : Alike job j) (sa : Bool) : Leaves job (j.save sa) := by
  refine Prog.Steps.ite (fun _ => ?_) fun _ => hj
  exact (anySteps (Prog.write (·.saveJob j sa))).bind fun _ _ => hj.saved

theorem prepareForExecution_leaves (hj : Alike job j) (name : WorkerName) (r : Registry) :
    Leaves job (j.prepareForExecution name r) := by
  refine (anySteps utcnow).bind fun now _ => ?_
  refine (anySteps (r.add j.name (now + secs j.timeout))).bind fun _ _ => ?_
  exact save_leaves (hj.prepared name now) false

theorem performed_leaves (env : Env) (q : Queue) (job : JobModel) (path : Path) :
    Leaves job (performed env q job path) := by
  have hprepare : ∀ j name, Alike job j → Leaves job
      (After.next (j.prepareForExecution name q.activeJobRegistry) fun job _ =>
        queuePerformJob env job) :=
    fun j name hj => (prepareForExecution_leaves hj name _).next fun j _ h =>
      (performs_alike env job).queuePerformJob_steps h
  cases path with
  | worker wk =>
      refine (anySteps (wk.workerBeforeExecution env job)).bind fun wk' _ => ?_
      exact hprepare job wk'.name ⟨rfl, rfl, rfl⟩
  | sync atFront =>
      refine (anySteps utcnow).bind fun now _ => ?_
      have hqueued : Alike job (Queue.enqueuedModel job now) := ⟨rfl, rfl, rfl⟩
      have hsave := After.get_steps (Q := fun r => Alike job r.1) (save_leaves hqueued false)
        fun j _ h => h
      exact hsave.bind fun r hr => hprepare r.1 "sync" hr

theorem stored_leaves (env : Env) (q : Queue) (job : JobModel) (path : Path) :
    Leaves job (stored env q job path) := by
  unfold stored
  refine (performed_leaves env q job path).next fun j v hj => ?_
  have hafter : Leaves job (j.afterExecution j.jobInfoTtl .finished q.activeJobRegistry
      q.finishedJobRegistry) := by
    refine (anySteps utcnow).bind fun now _ => ?_
    refine (anySteps (q.activeJobRegistry.delete j.name)).bind fun _ _ => ?_
    refine (anySteps (JobModel.addFor _ _ _)).bind fun _ _ => ?_
    exact save_leaves (hj.ended .finished now) false
  unfold Queue.jobHandleSuccess
  exact hafter.next fun j _ hj => (anySteps (Result.create _ _ _ _ _ _).attempt).bind fun _ _ => hj

theorem Ends.alike {q : Queue} {path : Path} {w w' : World} {out : Outcome}
    (h : Ends env q job path w out j w') : Alike job j := by
  cases out with
  | success =>
      obtain ⟨rv, t, hrun, -⟩ := h
      exact (performed_leaves env q job path).val w (by rw [hrun])
  | failure =>
      obtain ⟨x, t, hrun, -⟩ := h
      exact (stored_leaves env q job path).val w (by rw [hrun])

end Objects

/-! ## The world after an execution -/

section Worlds

variable {env : Env} {q : Queue} {job j : JobModel} {w w' : World} {t : List Event}
  {r : Except PyError Unit}

/-- What comes after a method that returned. -/
theorem run_next_ok {α β : Type} {p : Py (After α)} {f : JobModel → α → Py (After β)} {a : α}
    (h : p.run w = ⟨.ok (j, .ok a), w', t⟩) : (After.next p f).run w
      = ⟨((f j a).run w').val, ((f j a).run w').state, t ++ ((f j a).run w').trace⟩ := by
  unfold After.next
  rw [Prog.run_bind, h, Prog.Outcome.andThen_ok]
  rfl

theorem run_next_of_quiet {α β : Type} {p : Py (After α)} {f : JobModel → α → Py (After β)}
    {a : α} (h : p.run w = ⟨.ok (j, .ok a), w', []⟩) :
    (After.next p f).run w = (f j a).run w' := by
  rw [run_next_ok h, List.nil_append]

theorem next_assoc {α β γ : Type} (p : Py (After α)) (f : JobModel → α → Py (After β))
    (g : JobModel → β → Py (After γ)) :
    After.next (After.next p f) g = After.next p fun j a => After.next (f j a) g := by
  unfold After.next
  rw [Prog.bind_assoc]
  refine congrArg (p >>= ·) (funext fun r => ?_)
  obtain ⟨j, x | a⟩ := r <;> rfl

/-- What comes after a program that returned without events. -/
theorem run_bind_of_quiet {α β : Type} {p : Py α} {f : α → Py β} {a : α}
    (h : p.run w = ⟨.ok a, w', []⟩) : (p >>= f).run w = (f a).run w' := by
  rw [Prog.run_bind, h, Prog.Outcome.andThen_ok, List.nil_append]

theorem stored_worker (wk : Worker) : stored env q job (.worker wk)
    = (wk.workerBeforeExecution env job >>= fun wk => wk.performAndStore env job q) := by
  unfold stored performed After.next
  rw [Prog.bind_assoc]
  refine congrArg (wk.workerBeforeExecution env job >>= ·) (funext fun wk => ?_)
  exact next_assoc _ _ _

/-- A worker ends an execution as its outcome says. -/
theorem exec_worker (wk : Worker)
    (h : (stored env q job (.worker wk)).run w = ⟨.ok (j, r), w', t⟩) :
    ∃ wk' : Worker, (execution env q job (.worker wk)).exec w = match r with
      | .ok _ => (wk'.finishSuccess env j).exec w'
      | .error _ => (wk'.handleJobFailure env j q "traceback").exec w' := by
  obtain ⟨wk', w₁, hbefore⟩ : ∃ wk' w₁,
      (wk.workerBeforeExecution env job).run w = ⟨.ok wk', w₁, []⟩ := ⟨_, _, rfl⟩
  rw [stored_worker, run_bind_of_quiet hbefore] at h
  refine ⟨wk', (exec_ignore _ w).trans ?_⟩
  unfold Worker.workerPerformJob Prog.exec
  rw [run_bind_of_quiet hbefore, Prog.run_bind, h, Prog.Outcome.andThen_ok]
  cases r with
  | ok u => exact Prog.exec_bind_of_silent fun a w => rfl
  | error x =>
      refine Prog.exec_bind_of_silent fun a w => ?_
      obtain ⟨wk'', j', x' | u⟩ := a <;> rfl

/-- What comes after a program sees its value and the world only. -/
theorem exec_bind_congr {α β : Type} {p p' : Py α} (f : α → Py β)
    (hval : (p.run w).val = (p'.run w').val) (hstate : p.exec w = p'.exec w') :
    (p >>= f).exec w = (p' >>= f).exec w' := by
  rw [Prog.exec_bind, Prog.exec_bind, hval, hstate]

/-- `run_sync` once the execution came to its end `r`. -/
def handled (env : Env) (q : Queue) (r : After Unit) : Py (After Unit) :=
  match r.2 with
  | .ok _ => pure r
  | .error x =>
      if x.isException then q.jobHandleFailure env .failed r.1 "traceback"
      else pure r

/-- The client ends an execution as its outcome says, and gives the record a deadline. -/
theorem exec_sync {atFront : Bool} (hq : q.isAsync = false)
    (h : (stored env q job (.sync atFront)).run w = ⟨.ok (j, r), w', t⟩) :
    (execution env q job (.sync atFront)).exec w
      = (After.get (handled env q (j, r)) >>= fun r => r.1.expire r.1.jobInfoTtl).exec w' := by
  refine (exec_ignore _ w).trans ?_
  have hassoc : ∀ {α β γ : Type} (p : Py α) (f : α → Py (After β))
      (g : JobModel → β → Py (After γ)),
      After.next (p >>= f) g = p >>= fun a => After.next (f a) g :=
    fun p f g => Prog.bind_assoc _ _ _
  have hs : (Queue.enqueuedModel job w.now).serializable = true := by
    by_contra hs
    have hraise := JobModel.run_get_save (Queue.enqueuedModel job w.now) false w
    rw [if_neg hs] at hraise
    unfold stored performed at h
    rw [hassoc, run_bind_of_quiet (run_utcnow w), hassoc, Prog.run_bind, hraise] at h
    cases h
  have hsave := JobModel.run_get_save (Queue.enqueuedModel job w.now) false w
  rw [if_pos hs] at hsave
  let w₁ := w.saveJob (Queue.enqueuedModel job w.now) false
  have hs₁ : ((Queue.enqueuedModel job w.now).saved.prepared "sync" w₁.now).serializable = true := by
    rw [JobModel.prepared_serializable, JobModel.saved_serializable]
    exact hs
  have hprepare := JobModel.run_prepareForExecution (Queue.enqueuedModel job w.now).saved "sync"
    q.activeJobRegistry w₁
  rw [JobModel.run_save hs₁] at hprepare
  -- both programs go on with `queue_perform_job`
  unfold stored performed at h
  rw [hassoc, run_bind_of_quiet (run_utcnow w), hassoc, run_bind_of_quiet hsave, next_assoc,
    run_next_of_quiet hprepare] at h
  have hsync : (q.runSync env (Queue.enqueuedModel job w.now).saved).run w₁
      = ⟨((handled env q (j, r)).run w').val, ((handled env q (j, r)).run w').state,
        t ++ ((handled env q (j, r)).run w').trace⟩ := by
    unfold Queue.runSync
    rw [run_next_of_quiet hprepare, Prog.run_bind, h, Prog.Outcome.andThen_ok]
    rfl
  have henqueue : (q.enqueueJob env job atFront).exec w
      = (After.get (q.runSync env (Queue.enqueuedModel job w.now).saved) >>=
          fun r => r.1.expire r.1.jobInfoTtl).exec w₁ := by
    unfold Queue.enqueueJob Prog.exec
    rw [run_bind_of_quiet (run_utcnow w), run_bind_of_quiet hsave]
    dsimp only
    rw [if_neg (by rw [hq]; decide)]
  rw [henqueue]
  unfold After.get
  rw [Prog.bind_assoc, Prog.bind_assoc]
  refine exec_bind_congr _ ?_ ?_
  · rw [hsync]
  · unfold Prog.exec
    rw [hsync]

/-- The worlds agree in all that the keeping of names and records depends on. -/
structure SameKeys (w v : World) : Prop where
  now : w.now = v.now
  registry : w.registry = v.registry
  jobs : w.jobs = v.jobs

theorem SameKeys.refl (w : World) : SameKeys w w := ⟨rfl, rfl, rfl⟩

theorem SameKeys.record {v : World} (h : SameKeys w v) (n : JobName) :
    record w n = record v n := by
  unfold Lifetime.record
  rw [h.jobs]

theorem sameKeys_resultWorld (n : JobName) (x : Result PyValue) (w : World) :
    SameKeys (resultWorld n x w) w :=
  ⟨resultWorld_now _ _ _, resultWorld_registry _ _ _, resultWorld_jobs _ _ _⟩

theorem exec_finishSuccess (wk : Worker) (j : JobModel) (w : World) :
    ∃ v, SameKeys v w ∧ (wk.finishSuccess env j).exec w = j.expired j.successTtl v := by
  refine ⟨w.saveWorker env.config (Worker.countSuccess wk.model j) false, ⟨rfl, rfl, rfl⟩, ?_⟩
  unfold Worker.finishSuccess Worker.saveModel Prog.exec
  simp only [Prog.run_bind, Prog.run_write, Prog.Outcome.andThen_ok, Prog.pure_eq, Prog.run_ret,
    JobModel.run_expire]

/-- The end of `handle_job_failure`: the failure is counted when it could be stored. -/
def countedAfter (env : Env) (wk : Worker) (r : After Unit) : Py (Worker × After Unit) :=
  match r.2 with
  | .error _ => pure (wk, r)
  | .ok _ => do
      let wk ← Worker.saveModel env { wk with model := Worker.countFailure wk.model r.1 } false
      pure (wk, r)

theorem sameKeys_countedAfter (wk : Worker) (r : After Unit) (w : World) :
    SameKeys ((countedAfter env wk r).exec w) w := by
  obtain ⟨j', x | u⟩ := r <;> exact ⟨rfl, rfl, rfl⟩

theorem exec_handleJobFailure (wk : Worker) (j : JobModel) (w : World) :
    ∃ status, SameKeys ((wk.handleJobFailure env j q "traceback").exec w)
      ((q.jobHandleFailure env status j "traceback").exec w) := by
  let status : JobStatus :=
    if (w.workers.find? wk.name).bind (· .stoppedJobName) = some j.name then .stopped else .failed
  have hrun : (wk.handleJobFailure env j q "traceback").exec w
      = (q.jobHandleFailure env status j "traceback" >>=
          countedAfter env { wk with model := wk.model.setCurrentJobName none }).exec w := rfl
  refine ⟨status, ?_⟩
  rw [hrun, Prog.exec_bind]
  cases ((q.jobHandleFailure env status j "traceback").run w).val with
  | error x => exact .refl _
  | ok r => exact sameKeys_countedAfter _ r _

/-- The keys of the world after `job_handle_failure`. -/
theorem record_exec_jobHandleFailure (status : JobStatus) (j : JobModel) (w : World) :
    ((q.jobHandleFailure env status j "traceback").exec w).now = w.now ∧
    (((q.jobHandleFailure env status j "traceback").exec w).registry q.name .failed).score j.name
      = scoreAfter env.config.DEFAULT_FAILURE_TTL w.now
          ((w.registry q.name .failed).score j.name) ∧
    record ((q.jobHandleFailure env status j "traceback").exec w) j.name
      = if j.serializable then some (record w j.name).join else record w j.name := by
  cases hs : j.serializable with
  | true =>
      rw [Prog.exec_eq_of_run (Queue.run_jobHandleFailure env q status hs "traceback" w)]
      have hkeys := sameKeys_resultWorld j.name (resultOf j.name j.workerName .failed
        env.config.DEFAULT_FAILURE_TTL .none (some "traceback") w.now)
        (q.endedWorld .failed j env.config.DEFAULT_FAILURE_TTL status w)
      refine ⟨hkeys.now.trans (now_endedWorld _ _ _ _), ?_, ?_⟩
      · rw [hkeys.registry]
        exact score_endedWorld q (by decide) _ _
      · rw [hkeys.record]
        exact record_endedWorld _ _ _ _
  | false =>
      rw [Prog.exec_eq_of_run (Queue.run_jobHandleFailure_error env q status hs "traceback" w)]
      refine ⟨JobModel.moved_now _ _ _ _ _, score_moved q (by decide) _, record_moved _ _ _⟩

end Worlds

/-! ## The times that an execution sets -/

/-- The seconds for which the name is added to the registry of the outcome. -/
def nameTtl (env : Env) (job : JobModel) : Outcome → Int
  | .success => job.jobInfoTtl
  | .failure => env.config.DEFAULT_FAILURE_TTL

/-- The seconds after which the record expires, if `expire` is called. -/
def recordTtl (job : JobModel) : Path → Outcome → Option Int
  | .worker _, .success => some job.successTtl
  | .worker _, .failure => none
  | .sync _, _ => some job.jobInfoTtl

/-- The record after an execution that ended with an object that could be saved, or not: without
the save nothing else happens to the record. -/
def recordAfter (saved : Bool) (ttl : Option Int) (now : Int) (old : Option (Option Int)) :
    Option (Option Int) :=
  if saved then expiredRecord ttl now old.join else old

section Main

variable {env : Env} {q : Queue} {job j : JobModel} {path : Path} {w w' : World} {out : Outcome}

/-- What is left after a successful execution. -/
theorem ends_success (hq : ∀ atFront, path = .sync atFront → q.isAsync = false)
    (h : Ends env q job path w .success j w') :
    ∃ (v : World) (j' : JobModel), j'.name = j.name ∧ SameKeys v (q.endedWorld .finished j j.jobInfoTtl .finished w') ∧
      ∃ ttl, recordTtl j path .success = some ttl ∧
        (execution env q job path).exec w = j'.expired ttl v := by
  obtain ⟨rv, t, hrun, hs, hres⟩ := h
  have hstored : (stored env q job path).run w = ⟨.ok ((j.ended .finished w'.now).saved, .ok ()),
      resultWorld j.name (resultOf j.name j.workerName .successful j.successTtl rv none w'.now)
        (q.endedWorld .finished j j.jobInfoTtl .finished w'), t⟩ := by
    unfold stored
    rw [run_next_ok hrun, Queue.run_jobHandleSuccess q hs, if_pos hres, List.append_nil]
  have hkeys := sameKeys_resultWorld j.name
    (resultOf j.name j.workerName .successful j.successTtl rv none w'.now)
    (q.endedWorld .finished j j.jobInfoTtl .finished w')
  cases path with
  | worker wk =>
      obtain ⟨wk', hexec⟩ := exec_worker wk hstored
      obtain ⟨v, hv, hfinish⟩ := @exec_finishSuccess env wk' (j.ended .finished w'.now).saved
        (resultWorld j.name (resultOf j.name j.workerName .successful j.successTtl rv none w'.now)
          (q.endedWorld .finished j j.jobInfoTtl .finished w'))
      exact ⟨v, _, rfl, ⟨hv.now.trans hkeys.now, hv.registry.trans hkeys.registry,
        hv.jobs.trans hkeys.jobs⟩, _, rfl, hexec.trans hfinish⟩
  | sync atFront =>
      have hexec := exec_sync (hq atFront rfl) hstored
      refine ⟨_, (j.ended .finished w'.now).saved, rfl, hkeys, _, rfl, hexec.trans ?_⟩
      unfold handled After.get Prog.exec
      simp only [Prog.pure_eq, Prog.ret_bind, JobModel.run_expire]
      rfl

/-- What is left after a failed execution. -/
theorem ends_failure (hq : ∀ atFront, path = .sync atFront → q.isAsync = false)
    (h : Ends env q job path w .failure j w') :
    ∃ status v, SameKeys v ((q.jobHandleFailure env status j "traceback").exec w') ∧
      (execution env q job path).exec w =
        match recordTtl j path .failure with
        | none => v
        | some ttl => if j.serializable then (j.ended status w'.now).saved.expired ttl v else v := by
  obtain ⟨x, t, hrun, hx⟩ := h
  cases path with
  | worker wk =>
      obtain ⟨wk', hexec⟩ := exec_worker wk hrun
      obtain ⟨status, hkeys⟩ := @exec_handleJobFailure env q wk' j w'
      exact ⟨status, _, hkeys, hexec⟩
  | sync atFront =>
      have hexec := exec_sync (hq atFront rfl) hrun
      refine ⟨.failed, _, .refl _, hexec.trans ?_⟩
      have hhandled : handled env q (j, .error x)
          = q.jobHandleFailure env .failed j "traceback" := by
        unfold handled
        dsimp only
        rw [if_pos hx]
      rw [hhandled]
      dsimp only [recordTtl]
      cases hs : j.serializable with
      | true =>
          have hfail := Queue.run_jobHandleFailure env q .failed hs "traceback" w'
          rw [Prog.exec_bind, After.exec_get, After.run_get_ok hfail, if_pos rfl]
          dsimp only
          unfold Prog.exec
          rw [JobModel.run_expire]
          rfl
      | false =>
          have hfail := Queue.run_jobHandleFailure_error env q .failed hs "traceback" w'
          rw [Prog.exec_bind, After.exec_get, After.run_get_error hfail]
          rfl

/-- **The name and the record are kept together exactly when the score and the deadline end at the
same time.** Both are made from the ttls, or are as they were before. -/
theorem kept_together_iff (hq : ∀ atFront, path = .sync atFront → q.isAsync = false)
    (h : Ends env q job path w out j w') :
    KeptTogether (out.registry q) job.name ((execution env q job path).exec w) ↔
      SameLifetime w'.now
        (scoreAfter (nameTtl env job out) w'.now
          ((w'.registry q.name (out.registry q).kind).score job.name))
        (recordAfter j.serializable (recordTtl job path out) w'.now (record w' job.name)) := by
  obtain ⟨hname, hinfo, hsuccess⟩ := h.alike
  have httl : recordTtl job path out = recordTtl j path out := by
    unfold recordTtl
    rw [hinfo, hsuccess]
  rw [← hname, httl]
  cases out with
  | success =>
      obtain ⟨v, j', hj', hkeys, ttl, hexpire, hexec⟩ := ends_success hq h
      obtain ⟨rv, t, -, hs, -⟩ := h
      have hrecord : record v j'.name = some (record w' j.name).join := by
        rw [hkeys.record, hj']
        exact record_endedWorld _ _ _ _
      have hscore : (v.registry q.name .finished).score j.name = scoreAfter j.jobInfoTtl w'.now
          ((w'.registry q.name .finished).score j.name) := by
        rw [hkeys.registry]
        exact score_endedWorld q (by decide) _ _
      have hnow : v.now = w'.now := hkeys.now.trans (now_endedWorld _ _ _ _)
      rw [hexec, keptTogether_iff rfl, now_expired, registry_expired, ← hj',
        record_expired ttl hrecord, hexpire, hs, hj', hnow]
      show SameLifetime w'.now ((v.registry q.name .finished).score j.name) _ ↔
        SameLifetime w'.now (scoreAfter job.jobInfoTtl w'.now
          ((w'.registry q.name .finished).score j.name)) _
      rw [hscore, hinfo]
      rfl
  | failure =>
      obtain ⟨status, v, hkeys, hexec⟩ := ends_failure hq h
      obtain ⟨hnow, hscore, hrecord⟩ := @record_exec_jobHandleFailure env q status j w'
      rw [← hkeys.now] at hnow
      rw [← hkeys.registry] at hscore
      rw [← hkeys.record] at hrecord
      show KeptTogether ⟨q.name, .failed⟩ j.name _ ↔ SameLifetime w'.now
        (scoreAfter env.config.DEFAULT_FAILURE_TTL w'.now
          ((w'.registry q.name .failed).score j.name))
        (if j.serializable then expiredRecord (recordTtl j path .failure) w'.now
          (record w' j.name).join else record w' j.name)
      rw [hexec, ← hscore]
      cases hs : j.serializable with
      | false =>
          rw [hs, if_neg (by decide)] at hrecord
          rw [if_neg (by decide)]
          have hsame : (match recordTtl j path .failure with
              | none => v
              | some ttl => if false = true then (j.ended status w'.now).saved.expired ttl v
                  else v) = v := by
            cases recordTtl j path .failure <;> rfl
          rw [hsame, keptTogether_iff rfl, hnow, hrecord]
      | true =>
          rw [hs, if_pos rfl] at hrecord
          rw [if_pos rfl]
          cases recordTtl j path .failure with
          | none =>
              dsimp only [expiredRecord]
              rw [keptTogether_iff rfl, hnow, hrecord]
          | some ttl =>
              dsimp only
              rw [if_pos rfl, keptTogether_iff rfl, now_expired, registry_expired, hnow]
              have hexpired := record_expired (j := (j.ended status w'.now).saved) ttl hrecord
              rw [hnow] at hexpired
              rw [show record ((j.ended status w'.now).saved.expired ttl v) j.name = _ from hexpired]

end Main

/-- For a name that was in no registry and a record without a deadline: the two ttls must be equal
and the clock at a whole second, unless both keep for ever or both drop at once. -/
theorem sameLifetime_of_new {a b now : Int} (hnow : 0 ≤ now) :
    SameLifetime now (scoreAfter a now none) (recordAfter true (some b) now (some none)) ↔
      (0 < a ∧ a = b ∧ currentTimestamp now = now) ∨
      (a ≤ 0 ∧ b = 0 ∧ (a = 0 ∨ 0 ≤ currentTimestamp now + secs a)) ∨
      (a < 0 ∧ b < 0 ∧ currentTimestamp now + secs a < 0) := by
  have hsec : ∃ m, currentTimestamp now = secs m ∧ secs m ≤ now ∧ now < secs m + 1000000 := by
    refine ⟨now / 1000000, ?_, ?_, ?_⟩
    · unfold currentTimestamp
      rw [Int.tdiv_eq_ediv_of_nonneg hnow]
    · unfold secs
      omega
    · unfold secs
      omega
  obtain ⟨m, hm, hle, hlt⟩ := hsec
  rw [hm]
  have hrecord : recordAfter true (some b) now (some none)
      = if b = 0 then none else if b > 0 then some (some (now + secs b)) else some none := rfl
  by_cases ha : a = 0
  · have hscore : scoreAfter a now none = none := if_pos ha
    rw [hscore, hrecord]
    unfold SameLifetime
    rcases lt_trichotomy b 0 with hb | hb | hb
    · rw [if_neg (by omega), if_neg (by omega)]
      simp only [false_iff]
      omega
    · rw [if_pos hb]
      simp only [true_iff]
      omega
    · rw [if_neg (by omega), if_pos hb]
      unfold secs
      dsimp only
      omega
  · have hscore : scoreAfter a now none = some (secs (m + a)) := by
      unfold scoreAfter
      rw [if_neg ha, hm]
      unfold secs
      congr 1
      omega
    rw [hscore, hrecord]
    have hremoved : 0 < m + a → removedFrom (secs (m + a)) = secs (m + a) := removedFrom_secs
    have hzero : m + a ≤ 0 → removedFrom (secs (m + a)) = -999999 := fun h => by
      unfold removedFrom secs
      rw [if_pos (by omega)]
    unfold SameLifetime
    unfold secs at *
    rcases lt_trichotomy b 0 with hb | hb | hb
    · rw [if_neg (by omega), if_neg (by omega)]
      dsimp only
      omega
    · rw [if_pos hb]
      dsimp only
      omega
    · rw [if_neg (by omega), if_pos hb]
      dsimp only
      omega

/-- A job that is kept for ten seconds, with a record that is kept for `ttl` seconds. -/
def sampleJob (ttl : Int) : JobModel :=
  { Sample.job "j" with jobInfoTtl := 10, successTtl := ttl, timeout := 60 }

def sampleWorld (ttl : Int) : World := (World.init 0).saveJob (sampleJob ttl) true

def samplePath : Path := .worker (Sample.worker "w")

/-- With equal ttls the sample job and its record are kept together. -/
theorem sample_kept_together : KeptTogether ⟨"q", .finished⟩ "j"
    ((execution Sample.env Sample.queue (sampleJob 10) samplePath).exec (sampleWorld 10)) := by
  obtain ⟨j, w', hends, hcondition⟩ : ∃ j w',
      Ends Sample.env Sample.queue (sampleJob 10) samplePath (sampleWorld 10) .success j w' ∧
      SameLifetime w'.now (scoreAfter 10 w'.now ((w'.registry "q" .finished).score "j"))
        (recordAfter j.serializable (some 10) w'.now (record w' "j")) := by
    refine ⟨_, _, ⟨_, _, rfl, rfl, Or.inr rfl⟩, ?_⟩
    exact ⟨by decide, Or.inl rfl⟩
  exact (kept_together_iff (fun _ h => by cases h) hends).2 hcondition

/-- A record that is kept for ever outlives the name of the job. -/
theorem not_kept_together : ¬ ∀ (env : Env) (q : Queue) (job : JobModel) (path : Path) (w : World)
    (out : Outcome) (j : JobModel) (w' : World),
    (∀ atFront, path = .sync atFront → q.isAsync = false) → Ends env q job path w out j w' →
    KeptTogether (out.registry q) job.name ((execution env q job path).exec w) := by
  intro hall
  obtain ⟨j, w', hends⟩ : ∃ j w', Ends Sample.env Sample.queue (sampleJob (-1)) samplePath
      (sampleWorld (-1)) .success j w' := ⟨_, _, _, _, rfl, rfl, Or.inr rfl⟩
  have hkept := hall _ _ _ _ _ _ j w' (fun _ h => by cases h) hends 10000000
  have hexists : (((execution Sample.env Sample.queue (sampleJob (-1)) samplePath).exec
      (sampleWorld (-1))).advance 10000000).jobExists "j" = true := by decide +kernel
  exact absurd (hkept.2 hexists) (by decide +kernel)

end DailyScheduler.Lifetime
