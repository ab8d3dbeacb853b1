import DailyScheduler.Concurrency.Cancel

set_option autoImplicit false

/-! # Deleting a job that is being executed

`save` writes the fields that changed since the object was loaded. Where the record is gone in the
meantime, deleted by a client or expired, those fields are all that is stored afterwards: the key
exists, and `get` finds no job in it. This file says for every interleaving of workers, clients and
the clock when that does not happen: exactly as long as no save of some of the fields comes after
the end of its record.
-/

namespace DailyScheduler.Deletion

open AtomicProg

/-! ## The parties -/

/-- What a party does: a worker executes jobs, a client deletes one, time passes. -/
inductive Role where
  | worker (s : Cancel.WorkerSpec)
  | client (q : Queue) (n : JobName) (expireJobModel : Bool)
  | clock (ticks : List Nat)

def Role.program (env : Env) : Role → Py Unit
  | .worker s => s.program env
  | .client q n e => q.deleteJob env n e
  | .clock ticks => Prog.forEach ticks fun d => Prog.write (·.advance d)

def pool {ι : Type} (env : Env) (roles : ι → Role) (w : World) :
    Pool ι World Event PyError Unit where
  threads := fun i => (roles i).program env
  state := w
  log := []

/-! ## Readable records -/

/-- `get` returns a job whenever `exists` is true, and `get_many` does not raise. -/
structure Readable (env : Env) (w : World) : Prop where
  get : ∀ n, w.jobExists n = true → ∃ j, JobModel.fetch env w n = some j
  getMany : ∀ names, ∃ js, ((JobModel.getMany env names).run w).val = .ok js

/-- Every stored record has all the required fields. -/
def Whole (w : World) : Prop := ∀ n v, w.jobs.find? n = some v → v.complete = true

theorem readable_iff {env : Env} {w : World} : Readable env w ↔ Whole w := by
  constructor
  · intro h n v hv
    have hexists : w.jobExists n = true := (TtlMap.contains_iff _ _).2 ⟨v, hv⟩
    obtain ⟨j, hj⟩ := h.get n hexists
    have hload : w.loadable n := by
      by_contra hnone
      rw [JobModel.fetch_eq_none_iff.2 hnone] at hj
      cases hj
    obtain ⟨v', hv', hc⟩ := hload
    rw [hv] at hv'
    cases hv'
    exact hc
  · intro h
    have hfetch : ∀ n v, w.jobs.find? n = some v → ∃ j, JobModel.fetch env w n = some j := by
      intro n v hv
      refine Option.ne_none_iff_exists'.1 fun hnone => ?_
      exact JobModel.fetch_eq_none_iff.1 hnone ⟨v, hv, h n v hv⟩
    refine ⟨fun n hn => ?_, fun names => ?_⟩
    · obtain ⟨v, hv⟩ := (TtlMap.contains_iff _ _).1 hn
      exact hfetch n v hv
    · rw [JobModel.run_getMany]
      refine JobModel.deserializeAll_ok fun n _ => ?_
      cases hv : w.jobs.find? n with
      | none => exact Or.inl rfl
      | some v => exact Or.inr (hfetch n v hv)

/-! ## Steps -/

/-- The step stores no record that lacks a required field and was not stored before. -/
def Harmless (w w' : World) : Prop :=
  ∀ n v, w'.jobs.find? n = some v → v.complete = true ∨ w.jobs.find? n = some v

/-- The steps of the parties: harmless ones, and saves of job objects. -/
def RecordStep (w w' : World) (_ : List Event) : Prop :=
  Harmless w w' ∨ ∃ j sa, w' = w.saveJob j sa

/-- What a save stores where there is no record. -/
def alone (j : JobModel) (sa : Bool) : JobHash := j.storedOver sa fun _ => none

/-- A save that writes some of the required fields, but not all, finds the record. -/
def Guarded (w w' : World) : Prop :=
  ∀ j sa, w' = w.saveJob j sa → (alone j sa).nonempty JobField.all = true →
    (alone j sa).complete = false → w.jobExists j.name = true

/-- A guarded step keeps every record whole, and no other step does. -/
theorem whole_iff_guarded {w w' : World} {es : List Event} (hstep : RecordStep w w' es)
    (hw : Whole w) : Whole w' ↔ Guarded w w' := by
  constructor
  · rintro hw' j sa rfl hnonempty hincomplete
    by_contra hnone
    have hfind : w.jobs.find? j.name = none :=
      (TtlMap.contains_eq_false_iff _ _).1 (Bool.not_eq_true _ ▸ hnone)
    have hstored : (w.saveJob j sa).jobs.find? j.name = some (alone j sa) := by
      unfold World.saveJob
      rw [hfind]
      show (if (alone j sa).nonempty JobField.all then w.jobs.put j.name (alone j sa)
        else w.jobs.erase j.name).find? j.name = _
      rw [if_pos hnonempty, TtlMap.find?_put_self]
    have hcomplete := hw' j.name _ hstored
    rw [hincomplete] at hcomplete
    cases hcomplete
  · intro hguard
    rcases hstep with h | ⟨j, sa, rfl⟩
    · intro n v hv
      exact (h n v hv).elim id (hw n v)
    · intro n v hv
      by_cases hn : n = j.name
      · subst hn
        cases hfind : w.jobs.find? j.name with
        | some v₀ =>
            have hload : w.loadable j.name := ⟨v₀, hfind, hw _ _ hfind⟩
            obtain ⟨hstored, hcomplete⟩ := @World.find?_saveJob_self w j sa (Or.inl hload)
            rw [hv] at hstored
            cases hstored
            exact hcomplete
        | none =>
            unfold World.saveJob at hv
            rw [hfind] at hv
            change (if (alone j sa).nonempty JobField.all then w.jobs.put j.name (alone j sa)
              else w.jobs.erase j.name).find? j.name = some v at hv
            split at hv
            · rename_i hnonempty
              rw [TtlMap.find?_put_self] at hv
              cases hv
              cases hcomplete : (alone j sa).complete with
              | true => rfl
              | false =>
                  have hexists := hguard j sa rfl hnonempty hcomplete
                  have hnone := (TtlMap.contains_eq_false_iff w.jobs j.name).2 hfind
                  rw [World.jobExists, hnone] at hexists
                  cases hexists
            · rw [TtlMap.find?_erase, if_pos rfl] at hv
              cases hv
      · rw [World.find?_saveJob_of_ne w j sa hn] at hv
        exact hw n v hv

theorem harmless_of_jobs {w w' : World} (h : w'.jobs = w.jobs) : Harmless w w' := by
  intro n v hv
  rw [h] at hv
  exact Or.inr hv

/-- A record that ends, or keeps what it has. -/
theorem harmless_of_find? {w w' : World}
    (h : ∀ n, w'.jobs.find? n = w.jobs.find? n ∨ w'.jobs.find? n = none) : Harmless w w' := by
  intro n v hv
  rcases h n with h | h <;> rw [h] at hv
  · exact Or.inr hv
  · cases hv

theorem recordStep_of_jobs {w w' : World} (es : List Event) (h : w'.jobs = w.jobs) :
    RecordStep w w' es := Or.inl (harmless_of_jobs h)

theorem recordStep_of_execStep {q : QueueName} {n : JobName} {w w' : World} {es : List Event}
    (h : ExecStep q n w w' es) : RecordStep w w' es := by
  cases h with
  | save j sa hj => exact Or.inr ⟨j, sa, rfl⟩
  | persist =>
      refine Or.inl (harmless_of_find? fun m => Or.inl ?_)
      exact TtlMap.find?_persist _ _ _
  | _ => exact recordStep_of_jobs _ rfl

theorem harmless_deleteJob (w : World) (n : JobName) : Harmless w (w.deleteJob n) := by
  refine harmless_of_find? fun m => ?_
  unfold World.deleteJob
  rw [TtlMap.find?_erase]
  split
  · exact Or.inr rfl
  · exact Or.inl rfl

theorem harmless_expireJob (w : World) (n : JobName) (d : Int) : Harmless w (w.expireJob n d) :=
  harmless_of_find? fun _ => Or.inl (TtlMap.find?_expireAt _ _ _ _)

theorem harmless_advance (w : World) (d : Nat) : Harmless w (w.advance d) := by
  refine harmless_of_find? fun m => ?_
  unfold World.advance
  rw [TtlMap.find?_purge]
  split
  · exact Or.inl rfl
  · exact Or.inr rfl

theorem recordStep_of_expireStep {n : JobName} {w w' : World} {es : List Event}
    (h : ExpireStep n w w' es) : RecordStep w w' es := by
  cases h with
  | expire d => exact Or.inl (harmless_expireJob w n d)
  | delete => exact Or.inl (harmless_deleteJob w n)

/-! ## Programs -/

section Programs

variable {env : Env}

/-- User code that stores no incomplete record, and may report its call. -/
abbrev UserStep (w w' : World) (_ : List Event) : Prop := Harmless w w'

theorem recordStep_of_exec {q : QueueName} {n : JobName} {w w' : World} {es : List Event}
    (h : ExecOr q n UserStep w w' es ∨ ExpireStep n w w' es) : RecordStep w w' es :=
  h.elim (fun h => h.elim recordStep_of_execStep Or.inl) recordStep_of_expireStep

theorem jobs_zpopmin (w : World) (q : QueueName) (k : RegistryKind) :
    (w.zpopmin q k).2.jobs = w.jobs := by
  unfold World.zpopmin
  cases (w.registry q k).popMin <;> rfl

theorem jobs_bzpopmin (w : World) (qs : List QueueName) : (w.bzpopmin qs).2.jobs = w.jobs := by
  rcases hp : w.bzpopmin qs with ⟨_ | ⟨q, n⟩, w'⟩
  · rw [World.bzpopmin_none hp]
  · obtain ⟨-, hpop⟩ := World.bzpopmin_some hp
    have hjobs := jobs_zpopmin w q .queued
    rw [hpop] at hjobs
    exact hjobs

theorem dequeue_records (queues : List Queue) (timeout : Option Int) (fuel : Nat) :
    (Worker.dequeueJob env queues timeout fuel).Steps RecordStep fun _ => True := by
  refine Prog.Steps.tryCatch ?_ fun x => Prog.Steps.ite (fun _ => trivial) fun _ => trivial
  exact dequeueAny_steps (fun w => recordStep_of_jobs _ rfl)
    (fun w q n => recordStep_of_jobs _ rfl) (fun w q => recordStep_of_jobs _ (jobs_zpopmin w q _))
    (fun w qs => recordStep_of_jobs _ (jobs_bzpopmin w qs))
    (fun w n => ⟨recordStep_of_jobs _ rfl, recordStep_of_jobs _ rfl⟩) env queues timeout fuel

theorem work_records (hU : UserCode env UserStep) (queues : List Queue) (timeout : Option Int)
    (fork : Bool) (fuel : Nat) (rounds : Nat) (wk : Worker) :
    (wk.work env queues timeout fork fuel rounds).Steps RecordStep fun _ => True := by
  induction rounds generalizing wk with
  | zero => trivial
  | succ rounds ih =>
      refine (dequeue_records queues timeout fuel).bind fun r _ => ?_
      cases r with
      | none => exact Prog.Steps.ite (fun _ => trivial) fun _ => ih wk
      | some p =>
          obtain ⟨j, q⟩ := p
          have hexec := executeJob_steps hU (fun w => harmless_of_jobs rfl) wk (rfl : j.name = _) q
            fork
          exact (hexec.mono (fun _ _ _ => recordStep_of_exec) fun _ => id).bind fun wk' _ => ih wk'

theorem deleteJob_records (q : Queue) (n : JobName) (e : Bool) :
    (q.deleteJob env n e).Steps RecordStep fun _ => True := by
  have hremove : ∀ w, RecordStep w (q.removeFromAll n w) [] := fun w =>
    recordStep_of_jobs _ (Queue.removeFromAll_jobs q n w)
  refine Prog.Steps.bind (Q := fun _ => True) ?_ fun job _ => ?_
  · cases e with
    | true => exact fun w => ⟨recordStep_of_jobs _ rfl, trivial⟩
    | false => trivial
  cases job with
  | none => exact Prog.Steps.write hremove
  | some j =>
      refine Prog.Steps.ite (fun _ => ?_) fun _ => Prog.Steps.write fun w => ?_
      · refine Prog.Steps.bind (Q := fun _ => True) ?_ fun _ _ => Prog.Steps.write hremove
        exact (Prog.Steps.write fun w => Or.inl (harmless_deleteJob w _)).bind fun _ _ => trivial
      · unfold Queue.expireIn
        split
        · refine Or.inl fun m v hv => ?_
          have hexpire := harmless_expireJob (q.removeFromAll n w) j.name _ m v hv
          rwa [Queue.removeFromAll_jobs] at hexpire
        · exact hremove w

theorem role_records (hU : UserCode env UserStep) (r : Role) :
    (r.program env).Steps RecordStep fun _ => True := by
  cases r with
  | worker s => exact (work_records hU _ _ _ _ _ _).bind fun _ _ => trivial
  | client q n e => exact deleteJob_records q n e
  | clock ticks =>
      exact Prog.Steps.forEach fun d _ => Prog.Steps.write fun w => Or.inl (harmless_advance w d)

end Programs

/-! ## The pool -/

/-- **When every record can be read.** Under any schedule of any workers, clients and clocks, the
records can be read in every state exactly if every save of only some of the required fields finds
the record that it updates. -/
theorem readable_along_iff {ι : Type} [DecidableEq ι] {env : Env} (hU : UserCode env UserStep)
    (roles : ι → Role) {w : World} (hw : Readable env w) (l : List ι) :
    Run.Along Pool.step (fun P => Readable env P.state) (pool env roles w) l ↔
      Run.Meets Pool.step (fun P i => Guarded P.state (P.step i).state) (pool env roles w) l := by
  have hbounded : (pool env roles w).Bounded RecordStep := fun i => role_records hU (roles i)
  have hiff := hbounded.along_iff (fun w => recordStep_of_jobs _ rfl)
    (fun w w' es => whole_iff_guarded) (readable_iff.1 hw) l
  rw [← hiff]
  exact ⟨fun h => h.mono fun _ => readable_iff.1, fun h => h.mono fun _ => readable_iff.2⟩

/-- A worker, a client that deletes the job `a` and the clock. The record of `a` is to be deleted
with the job. -/
def sampleRoles : Fin 3 → Role
  | 0 => .worker ⟨Sample.worker "w", [Sample.queue], none, false, 1, 1⟩
  | 1 => .client Sample.queue "a" true
  | 2 => .clock [1]

def sampleWorld : World :=
  ((World.init 0).saveJob { Sample.job "a" with jobInfoTtl := 0 } true).zadd "q" .queued "a" 1

theorem sampleWorld_readable : Readable Sample.env sampleWorld := by
  refine readable_iff.2 fun n v hv => ?_
  by_cases hn : n = "a"
  · subst hn
    have hload : sampleWorld.loadable "a" :=
      ⟨_, World.find?_saveJob_self (Or.inr (Or.inl rfl))⟩
    obtain ⟨v', hv', hc⟩ := hload
    rw [hv] at hv'
    cases hv'
    exact hc
  · have hsave := World.find?_saveJob_of_ne (World.init 0)
      { Sample.job "a" with jobInfoTtl := 0 } true hn
    have hnone : sampleWorld.jobs.find? n = none := hsave
    rw [hnone] at hv
    cases hv

theorem sample_readable_along_iff :
    Run.Along Pool.step (fun P => Readable Sample.env P.state)
        (pool Sample.env sampleRoles sampleWorld) (List.replicate 20 0 ++ [1, 1, 1, 2]) ↔
      Run.Meets Pool.step (fun P i => Guarded P.state (P.step i).state)
        (pool Sample.env sampleRoles sampleWorld) (List.replicate 20 0 ++ [1, 1, 1, 2]) :=
  readable_along_iff (Sample.userCode _) sampleRoles sampleWorld_readable _

/-- The client deletes the job between the fetch of the worker and its first save: the key exists
afterwards, and `get` returns nothing. -/
theorem not_readable_along : ¬ ∀ l, Run.Along Pool.step (fun P => Readable Sample.env P.state)
    (pool Sample.env sampleRoles sampleWorld) l := by
  intro h
  have hlast := (h (List.replicate 5 0 ++ List.replicate 3 1 ++ List.replicate 7 0)).last
  obtain ⟨j, hj⟩ := hlast.get "a" (by decide +kernel)
  have hnone : (JobModel.fetch Sample.env (Run.last Pool.step (pool Sample.env sampleRoles
      sampleWorld) (List.replicate 5 0 ++ List.replicate 3 1 ++ List.replicate 7 0)).state
        "a").isNone = true := by decide +kernel
  rw [hj] at hnone
  cases hnone

end DailyScheduler.Deletion
