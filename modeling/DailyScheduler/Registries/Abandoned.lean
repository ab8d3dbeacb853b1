import DailyScheduler.Registries.Started

set_option autoImplicit false

/-! # Readings and `clean_registries` find abandoned jobs

A reading at the time `T` drops every entry of the active registry with a score up to `T`.
`clean_registries` fails the jobs behind those entries one after the other, if their timeout has passed
a second time since, and drops all the entries after each job it fails; an exception of a failure
callback ends it.
-/

namespace DailyScheduler.Started

open AtomicProg

/-! ## Readings -/

section Readings

variable {n : JobName} {w : World} {q : QueueName}

/-- The job is tracked, and in the queue `q` no cleanup at the time `T` drops it. -/
def Current (q : QueueName) (T : Int) (n : JobName) (w : World) : Prop :=
  Tracked n w ∧ ¬ Overdue q T n w

theorem Current.cleaned {T : Int} {t : Option Int} {r : Registry} (hq : r.queue = q)
    (hT : Registry.cleanupScore t w = T) (h : Current q T n w) : Current q T n (r.cleaned t w) := by
  have hfind : (r.cleaned t w).jobs.find? n = w.jobs.find? n := by rw [Registry.cleaned_jobs]
  refine ⟨fun hs => ?_, fun hover => ?_⟩
  · rw [status_congr hfind] at hs
    obtain ⟨q', hq', hin⟩ := h.1 hs
    refine ⟨q', (field_congr hfind _).trans hq', ?_⟩
    obtain ⟨s, hscore⟩ := (SortedSet.mem_iff_exists _ _).1 hin
    rw [World.inRegistry_iff, Registry.score_cleaned]
    split
    · -- the entry is in a registry that is cleaned, but not up to its score
      rename_i hr
      have hname : q' = q := hr.2.1.trans hq
      subst hname
      have hout : ¬ (0 ≤ s ∧ s ≤ T) := fun hrange => h.2 ⟨⟨hs, hq'⟩, s, hscore, hrange⟩
      rw [hscore, hT]
      simp [Option.filter, hout]
    · rw [hscore]
      rfl
  · obtain ⟨hruns, s, hs, hrange⟩ := hover
    refine h.2 ⟨(Runs.congr hfind).1 hruns, s, ?_, hrange⟩
    rw [Registry.score_cleaned] at hs
    split at hs
    · exact (Option.filter_eq_some_iff.1 hs).1
    · exact hs

/-- A reading of registries of the queue. -/
structure Reads (q : QueueName) (w w' : World) : Prop where
  jobs : w'.jobs = w.jobs
  now : w'.now = w.now
  current : ∀ n, Current q (currentTimestamp w.now) n w → Current q (currentTimestamp w.now) n w'

theorem Reads.refl (w : World) : Reads q w w := ⟨rfl, rfl, fun _ => id⟩

theorem Reads.trans {w' w'' : World} (h : Reads q w w') (h' : Reads q w' w'') : Reads q w w'' where
  jobs := h'.jobs.trans h.jobs
  now := h'.now.trans h.now
  current := fun n hn => by
    have hcurrent := h'.current n
    rw [h.now] at hcurrent
    exact hcurrent (h.current n hn)

theorem reads_cleaned {r : Registry} (hq : r.queue = q) : Reads q w (r.cleaned none w) where
  jobs := Registry.cleaned_jobs r none w
  now := Registry.cleaned_now r none w
  current := fun _ h => h.cleaned hq rfl

theorem reads_count {r : Registry} (hq : r.queue = q) : Reads q w (r.count.exec w) := by
  rw [Prog.exec_eq_of_run (Registry.run_count r w)]
  exact reads_cleaned hq

theorem reads_all {r : Registry} (hq : r.queue = q) (i k : Int) :
    Reads q w ((r.all i k).exec w) := by
  rw [Prog.exec_eq_of_run (Registry.run_all r i k w)]
  exact reads_cleaned hq

/-- `count` of a queue reads its registries one after the other. -/
theorem reads_countOf {l : List Registry} (hl : ∀ r ∈ l, r.queue = q) (w : World) :
    Reads q w ((Queue.count.countOf l).exec w) := by
  induction l generalizing w with
  | nil => exact .refl w
  | cons r l ih =>
      have hfirst : Reads q w (r.count.exec w) := reads_count (hl r List.mem_cons_self)
      refine Prog.exec_bind_keeps hfirst fun k _ => ?_
      have hrest : Reads q w ((Queue.count.countOf l).exec (r.count.exec w)) :=
        hfirst.trans (ih (fun r' hr' => hl r' (List.mem_cons_of_mem r hr')) _)
      exact Prog.exec_bind_keeps hrest fun m _ => hrest

theorem queue_of_registries {queue : Queue} : ∀ r ∈ queue.registries, r.queue = queue.name := by
  intro r hr
  simp only [Queue.registries, List.mem_cons, List.not_mem_nil, or_false] at hr
  rcases hr with rfl | rfl | rfl | rfl | rfl | rfl <;> rfl

theorem exec_existing (l : List JobName) (w : World) :
    (Queue.getAllJobNames.existing l).exec w = w := by
  induction l generalizing w with
  | nil => rfl
  | cons m l ih =>
      refine Prog.exec_bind_keeps (I := fun w' => w' = w) rfl fun found _ => ?_
      exact Prog.exec_bind_keeps (I := fun w' => w' = w) (ih w) fun rest _ => ih w

/-- `get_all_job_names` reads all registries of the queue, and asks for the records. -/
theorem reads_getAllJobNames (queue : Queue) (w : World) :
    Reads queue.name w (queue.getAllJobNames.exec w) := by
  have hstep : ∀ (r : Registry) (w' : World), r.queue = queue.name → Reads queue.name w w' →
      Reads queue.name w ((r.all 0 (-1)).exec w') :=
    fun r w' hr h => h.trans (reads_all hr 0 (-1))
  have h₁ := hstep queue.queuedJobRegistry w rfl (.refl w)
  refine Prog.exec_bind_keeps h₁ fun _ _ => ?_
  have h₂ := hstep queue.finishedJobRegistry _ rfl h₁
  refine Prog.exec_bind_keeps h₂ fun _ _ => ?_
  have h₃ := hstep queue.activeJobRegistry _ rfl h₂
  refine Prog.exec_bind_keeps h₃ fun _ _ => ?_
  have h₄ := hstep queue.failedJobRegistry _ rfl h₃
  refine Prog.exec_bind_keeps h₄ fun _ _ => ?_
  have h₅ := hstep queue.scheduledJobRegistry _ rfl h₄
  refine Prog.exec_bind_keeps h₅ fun _ _ => ?_
  have h₆ := hstep queue.canceledJobRegistry _ rfl h₅
  refine Prog.exec_bind_keeps h₆ fun _ _ => ?_
  rw [exec_existing]
  exact h₆

end Readings

/-! ## `clean_registries` -/

section Cleaning

variable {env : Env} {n : JobName} {q : Queue} {T : Int} {w : World}

/-- The entries that `clean_registries` goes over. -/
def due (q : Queue) (T : Int) (w : World) : List (Int × JobName) :=
  (w.registry q.name .active).rangeByScore 0 T

/-- The loop of `clean_registries` goes over the entries that are due at the start. -/
theorem exec_cleanRegistries (timestamp : Option Int) (w : World) :
    (q.cleanRegistries env timestamp).exec w
      = (Prog.forEach (due q (Registry.cleanupScore timestamp w) w)
          (q.cleanAbandoned env (Registry.cleanupScore timestamp w))).exec
        (compacted q.name w) := by
  have hactive : (compacted q.name w).registry q.name .active = w.registry q.name .active := by
    unfold compacted
    rw [World.registry_setRegistry, if_neg fun h => by cases h.2]
  have hscore : Registry.cleanupScore (some (Registry.cleanupScore timestamp w)) (compacted q.name w)
      = Registry.cleanupScore timestamp w := by
    have hnow : ∀ t, Registry.cleanupScore t (compacted q.name w) = Registry.cleanupScore t w := by
      intro t
      unfold Registry.cleanupScore
      rw [compacted_now]
    rw [hnow, Registry.cleanupScore_cleanupScore]
  have hcompact : q.queuedJobRegistry.compact.run w = ⟨.ok (), compacted q.name w, []⟩ :=
    run_compact q.name w
  unfold Prog.exec Queue.cleanRegistries
  rw [Prog.run_bind, Registry.run_timestampOrNow, Prog.Outcome.andThen_ok, Prog.run_bind, hcompact,
    Prog.Outcome.andThen_ok, Prog.run_bind, Registry.getJobNamesBefore, Prog.run_bind,
    Registry.run_timestampOrNow, Prog.Outcome.andThen_ok, hscore, Prog.run_read,
    Prog.Outcome.andThen_ok]
  show ((Prog.forEach (((compacted q.name w).registry q.name .active).rangeByScore _ _) _).run _).state
    = _
  rw [hactive]
  rfl

theorem spares_of_steps {α : Type} {p : Py α} {Q : α → Prop} (h : p.Steps (SparesStep n) Q)
    (w : World) : Spares n w (p.exec w) :=
  h.exec (I := fun w' => Spares n w w') (fun _ _ _ hs hw => hw.trans hs) (.refl w)

/-- A failure callback, whichever job it is for, leaves the job alone. -/
theorem callback_spares (hU : UserCode env (SparesStep n)) (j : JobModel) (w : World) :
    Spares n w ((After.get (j.callFailureCallback env)).exec w) := by
  rw [After.exec_get]
  exact spares_of_steps (callCallback_steps hU rfl _ _ fun w => Spares.refl w) w

/-- The last loop of a round. -/
def cleanAll (q : Queue) (T : Int) : Py Unit :=
  Prog.forEach q.registries fun r => r.cleanup (some T)

theorem cleanAll_keeps {I : World → Prop}
    (hclean : ∀ w, ∀ r ∈ q.registries, I w → I (r.cleaned (some T) w)) (hw : I w) :
    I ((cleanAll q T).exec w) :=
  Prog.exec_forEach_keeps (fun r hr w' hw' => by
    rw [Prog.exec_eq_of_run (Registry.run_cleanup r (some T) w')]
    exact hclean w' r hr hw') hw

/-- A round for another job keeps what the commands for other jobs and the cleanups keep. -/
theorem round_keeps {R : World → World → List Event → Prop} (h : Others env n R)
    {I : World → Prop} (hR : ∀ w w' es, R w w' es → I w → I w')
    (hclean : ∀ w, ∀ r ∈ q.registries, I w → I (r.cleaned (some T) w)) {p : Int × JobName}
    (hp : p.2 ≠ n) (hw : I w) : I ((q.cleanAbandoned env T p).exec w) := by
  refine Prog.exec_bind_keeps (p := JobModel.get env p.2) hw fun job hjob => ?_
  cases job with
  | none => exact hw
  | some j =>
      have hj : j.name = p.2 := JobModel.name_of_fetch (Except.ok.inj hjob)
      have hne : j.name ≠ n := hj ▸ hp
      show I (Prog.exec (if _ then pure () else _) w)
      split
      · exact hw
      · have hcallback : (j.callFailureCallback env).Steps (ExecOr q.name j.name R) (Named j.name) :=
          callFailureCallback_steps h.user rfl
        have hcallback' := h.get_steps hcallback hne
        have hw' := hcallback'.exec hR hw
        refine Prog.exec_bind_keeps hw' fun r hr => ?_
        have hr' : r.1.name ≠ n := by
          rw [hcallback'.val w hr]
          exact hne
        have hfailure : (q.jobHandleFailure env .failed r.1
            "Moved to the failed registry, due to AbandonedJobError").Steps
            (ExecOr q.name r.1.name R) (Named r.1.name) := jobHandleFailure_steps rfl .failed _
        have hw'' := (h.get_steps hfailure hr').exec hR hw'
        exact Prog.exec_bind_keeps hw'' fun _ _ => cleanAll_keeps hclean hw''

/-- A round, whichever job it is for, starts no idle job. -/
theorem Idle.round (hU : UserCode env (SparesStep n)) (p : Int × JobName) (hw : Idle n w) :
    Idle n ((q.cleanAbandoned env T p).exec w) := by
  refine Prog.exec_bind_keeps (p := JobModel.get env p.2) hw fun job _ => ?_
  cases job with
  | none => exact hw
  | some j =>
      show Idle n (Prog.exec (if _ then pure () else _) w)
      split
      · exact hw
      · have hw' := (callback_spares hU j w).idle hw
        refine Prog.exec_bind_keeps hw' fun r _ => ?_
        have hw'' : Idle n ((After.get (q.jobHandleFailure env .failed r.1
            "Moved to the failed registry, due to AbandonedJobError")).exec
            ((After.get (j.callFailureCallback env)).exec w)) := by
          rw [After.exec_get]
          exact hw'.failure (by simp) _
        refine Prog.exec_bind_keeps hw'' fun _ _ => cleanAll_keeps (fun w r _ hw => ?_) hw''
        exact idle_of_find? (by rw [Registry.cleaned_jobs]) hw

/-! ### A job whose entry is not dropped -/

/-- The entry of the job is `s` in the queue `q'`, which its record names as long as it runs. -/
def Settled (q' : QueueName) (s : Int) (n : JobName) (w : World) : Prop :=
  (w.registry q' .active).score n = some s ∧
    (w.storedField n .queueName = some q' ∨ Idle n w)

theorem Settled.tracked {q' : QueueName} {s : Int} (h : Settled q' s n w) : Tracked n w := by
  rcases h.2 with hq | hi
  · exact fun _ => ⟨q', hq, (SortedSet.mem_iff_exists _ _).2 ⟨s, h.1⟩⟩
  · exact hi.tracked

theorem Spares.settled {q' : QueueName} {s : Int} {w' : World} (h : Spares n w w')
    (hw : Settled q' s n w) : Settled q' s n w' :=
  ⟨h.score q' .active s (Or.inl rfl) hw.1, hw.2.imp h.field h.idle⟩

theorem Settled.of_jobs {q' : QueueName} {s : Int} {w' : World} (h : Settled q' s n w)
    (hjobs : w'.jobs = w.jobs) (hscore : (w'.registry q' .active).score n = some s) :
    Settled q' s n w' := by
  have hfind : w'.jobs.find? n = w.jobs.find? n := by rw [hjobs]
  exact ⟨hscore, h.2.imp (fun hq => (field_congr hfind _).trans hq) fun hi => idle_of_find? hfind hi⟩

theorem Settled.cleaned {q' : QueueName} {s : Int} (h : Settled q' s n w)
    (hout : q' = q.name → ¬ (0 ≤ s ∧ s ≤ Registry.cleanupScore (some T) w)) {r : Registry}
    (hr : r ∈ q.registries) : Settled q' s n (r.cleaned (some T) w) := by
  refine h.of_jobs (Registry.cleaned_jobs r _ w) ?_
  rw [Registry.score_cleaned]
  split
  · rename_i heq
    have hname : q' = q.name := by rw [heq.2.1, queue_of_registries r hr]
    rw [h.1]
    simp [Option.filter, hout hname]
  · exact h.1

/-- The cleanup at `T` reaches as far as it did at the start of the operation. -/
def Timed (T : Int) (now : Int) (w : World) : Prop :=
  w.now = now ∧ Registry.cleanupScore (some T) w = T

theorem Timed.of_now {now : Int} {w' : World} (h : Timed T now w) (hnow : w'.now = w.now) :
    Timed T now w' := by
  refine ⟨hnow.trans h.1, ?_⟩
  have hscore : Registry.cleanupScore (some T) w' = Registry.cleanupScore (some T) w := by
    unfold Registry.cleanupScore
    rw [hnow]
  exact hscore.trans h.2

theorem now_failure (status : JobStatus) (j : JobModel) (exc : String) (w : World) :
    ((q.jobHandleFailure env status j exc).exec w).now = w.now := by
  cases hser : j.serializable with
  | true =>
      rw [Prog.exec_eq_of_run (Queue.run_jobHandleFailure env q status hser exc w), resultWorld_now]
      exact JobModel.moved_now _ _ _ _ _
  | false =>
      rw [Prog.exec_eq_of_run (Queue.run_jobHandleFailure_error env q status hser exc w)]
      exact JobModel.moved_now _ _ _ _ _

/-- The failure of the job in another queue. -/
theorem Settled.failure {q' : QueueName} {s : Int} (hw : Settled q' s n w)
    (hq : q' ≠ q.name) {j : JobModel} (hj : j.name = n) (exc : String) :
    Settled q' s n ((q.jobHandleFailure env .failed j exc).exec w) := by
  have hscore : (((q.jobHandleFailure env .failed j exc).exec w).registry q' .active).score n
      = some s := by
    rw [Queue.registry_exec_jobHandleFailure]
    exact (score_moved_of_ne hq .failed _).trans hw.1
  cases hser : j.serializable with
  | true => exact ⟨hscore, Or.inr (idle_failure (by simp) hser exc (Or.inl hj))⟩
  | false => exact hw.of_jobs (jobs_failure_error hser _ _) hscore

/-- A job that is settled, in an operation that started at `now` and cleans up to `T`. -/
def Stays (q' : QueueName) (s T now : Int) (n : JobName) (w : World) : Prop :=
  Timed T now w ∧ Settled q' s n w

theorem Stays.cleaned {q' : QueueName} {s now : Int} (h : Stays q' s T now n w)
    (hout : q' = q.name → ¬ (0 ≤ s ∧ s ≤ T)) {r : Registry} (hr : r ∈ q.registries) :
    Stays q' s T now n (r.cleaned (some T) w) := by
  refine ⟨h.1.of_now (Registry.cleaned_now r _ w), h.2.cleaned (fun hq => ?_) hr⟩
  rw [h.1.2]
  exact hout hq

theorem Spares.stays {q' : QueueName} {s now : Int} {w' : World} (h : Spares n w w')
    (hw : Stays q' s T now n w) : Stays q' s T now n w' :=
  ⟨hw.1.of_now h.clock, h.settled hw.2⟩

/-- The name of the object that a callback leaves. -/
theorem name_callback (hU : UserCode env (SparesStep n)) {j : JobModel} {r : JobModel × Unit}
    (hr : ((After.get (j.callFailureCallback env)).run w).val = .ok r) : r.1.name = j.name := by
  have hsteps : (j.callFailureCallback env).Steps (SparesStep n) (Named j.name) :=
    callCallback_steps hU rfl _ _ fun w => Spares.refl w
  have hget : (After.get (j.callFailureCallback env)).Steps (SparesStep n)
      fun r => r.1.name = j.name := After.get_steps hsteps fun _ _ h => h
  exact hget.val w hr

/-- A round leaves a settled job settled: a job of another queue even when it is failed there, for its
entry in its own queue is not touched. -/
theorem Stays.round (hU : UserCode env (SparesStep n)) {q' : QueueName} {s now : Int}
    (hout : q' = q.name → ¬ (0 ≤ s ∧ s ≤ T)) {p : Int × JobName} (hp : p.2 = n → q' ≠ q.name)
    (hw : Stays q' s T now n w) : Stays q' s T now n ((q.cleanAbandoned env T p).exec w) := by
  have hclean : ∀ w, ∀ r ∈ q.registries, Stays q' s T now n w →
      Stays q' s T now n (r.cleaned (some T) w) := fun w r hr h => h.cleaned hout hr
  by_cases hn : p.2 = n
  · refine Prog.exec_bind_keeps (p := JobModel.get env p.2) hw fun job hjob => ?_
    cases job with
    | none => exact hw
    | some j =>
        have hj : j.name = n := (JobModel.name_of_fetch (Except.ok.inj hjob)).trans hn
        show Stays q' s T now n (Prog.exec (if _ then pure () else _) w)
        split
        · exact hw
        · have hw' := (callback_spares hU j w).stays hw
          refine Prog.exec_bind_keeps hw' fun r hr => ?_
          have hname : r.1.name = n := (name_callback hU hr).trans hj
          have hw'' : Stays q' s T now n ((After.get (q.jobHandleFailure env .failed r.1
              "Moved to the failed registry, due to AbandonedJobError")).exec
              ((After.get (j.callFailureCallback env)).exec w)) := by
            rw [After.exec_get]
            exact ⟨hw'.1.of_now (now_failure _ _ _ _), hw'.2.failure (hp hn) hname _⟩
          exact Prog.exec_bind_keeps hw'' fun _ _ => cleanAll_keeps hclean hw''
  · exact round_keeps (others hU) (fun w w' _ hs h => hs.stays h) hclean hn hw

/-! ### The condition on `clean_registries` -/

/-- The round for the entry does nothing: its timeout has not passed a second time. -/
def Passed (env : Env) (T : Int) (w : World) (p : Int × JobName) : Prop :=
  ∀ j, JobModel.fetch env w p.2 = some j → p.1 + secs j.timeout > T

/-- The round for the entry raises: in the failure callback, or, if the entry is not the job's,
because the object that the callback leaves cannot be stored. -/
def Breaks (env : Env) (T : Int) (n : JobName) (w : World) (p : Int × JobName) : Prop :=
  ∃ j, JobModel.fetch env w p.2 = some j ∧ p.1 + secs j.timeout ≤ T ∧
    ((∃ x, ((After.get (j.callFailureCallback env)).run w).val = .error x) ∨
      p.2 ≠ n ∧ ∃ r, ((After.get (j.callFailureCallback env)).run w).val = .ok r ∧
        r.1.serializable = false)

/-- Nothing is dropped: the rounds do nothing up to the end, or up to one that raises. -/
def Stops (env : Env) (q : Queue) (T : Int) (n : JobName) (w : World) : Prop :=
  ∃ l l', due q T w = l ++ l' ∧ (∀ p ∈ l, Passed env T w p) ∧
    ∀ p ∈ l'.head?, Breaks env T n (compacted q.name w) p

/-- The world that the round for an entry finds after the rounds for `l`. -/
def reached (env : Env) (q : Queue) (T : Int) (l : List (Int × JobName)) (w : World) : World :=
  (Prog.forEach l (q.cleanAbandoned env T)).exec (compacted q.name w)

/-- No round before the job's raises, and the job is failed in its own: its timeout has passed a
second time, the callback returns, the object can be stored, and the new entry in the failed registry
lasts longer than the cleanup reaches. -/
structure Fails (env : Env) (q : Queue) (T : Int) (n : JobName) (w : World)
    (s : Int) (l l' : List (Int × JobName)) (j : JobModel) (r : JobModel × Unit) : Prop where
  split : due q T w = l ++ (s, n) :: l'
  before : ((Prog.forEach l (q.cleanAbandoned env T)).run (compacted q.name w)).val = .ok ()
  fetch : JobModel.fetch env w n = some j
  passed : s + secs j.timeout ≤ T
  callback : ((After.get (j.callFailureCallback env)).run (reached env q T l w)).val = .ok r
  stored : r.1.serializable = true
  registered : env.config.DEFAULT_FAILURE_TTL ≠ 0
  lasts : T < currentTimestamp w.now + secs env.config.DEFAULT_FAILURE_TTL

/-- A started job that the cleanup would drop is failed, or nothing is dropped. -/
def CleanFits (env : Env) (q : Queue) (T : Int) (n : JobName) (w : World) : Prop :=
  Overdue q.name T n w → Stops env q T n w ∨ ∃ s l l' j r, Fails env q T n w s l l' j r

/-- The round for a job that is abandoned. -/
def failAbandoned (env : Env) (q : Queue) (T : Int) (job : JobModel) : Py Unit := do
  let r ← After.get (job.callFailureCallback env)
  let _ ← After.get (q.jobHandleFailure env .failed r.1
    "Moved to the failed registry, due to AbandonedJobError")
  cleanAll q T

theorem run_abandoned {p : Int × JobName} {j : JobModel} (hj : JobModel.fetch env w p.2 = some j)
    (hs : p.1 + secs j.timeout ≤ T) :
    (q.cleanAbandoned env T p).run w = (failAbandoned env q T j).run w := by
  have hget : (JobModel.get env p.2).run w = ⟨.ok (some j), w, []⟩ := by
    rw [JobModel.get, Prog.run_read, hj]
  have hround : (q.cleanAbandoned env T p).run w
      = (if p.1 + secs j.timeout > T then pure () else failAbandoned env q T j : Py Unit).run w := by
    unfold Queue.cleanAbandoned
    rw [Prog.run_bind, hget, Prog.Outcome.andThen_ok]
    rfl
  rw [hround, if_neg (not_lt.2 hs)]

theorem exec_passed {p : Int × JobName} (h : Passed env T w p) :
    (q.cleanAbandoned env T p).exec w = w := by
  refine Prog.exec_bind_keeps (p := JobModel.get env p.2) (I := fun w' => w' = w) rfl
    fun job hjob => ?_
  cases job with
  | none => rfl
  | some j =>
      show Prog.exec (if _ then pure () else _) w = w
      rw [if_pos (h j (Except.ok.inj hjob))]
      rfl

theorem spares_compacted (q : QueueName) (w : World) : Spares n w (compacted q w) := by
  refine .of_same rfl (fun q' k hk => ?_) rfl
  unfold compacted
  rw [World.registry_setRegistry, if_neg]
  rintro ⟨-, rfl⟩
  rcases hk with hk | hk <;> cases hk

/-- A round that raises leaves the job alone, and ends the operation. -/
theorem Breaks.round (hU : UserCode env (SparesStep n)) {p : Int × JobName}
    (h : Breaks env T n w p) : Spares n w ((q.cleanAbandoned env T p).exec w) ∧
      ∃ x, ((q.cleanAbandoned env T p).run w).val = .error x := by
  obtain ⟨j, hj, hs, hraises⟩ := h
  have hcallback := callback_spares hU j w
  unfold Prog.exec at hcallback ⊢
  rw [run_abandoned hj hs, failAbandoned, Prog.run_bind]
  rcases hc : (After.get (j.callFailureCallback env)).run w with ⟨x | r, w₁, t⟩
  · rw [hc] at hcallback
    exact ⟨hcallback, x, rfl⟩
  · rw [hc] at hcallback hraises
    obtain ⟨hne, r', hr', hser⟩ := hraises.resolve_left fun ⟨x, hx⟩ => by cases hx
    cases hr'
    have hname : r.1.name ≠ n := by
      have hr : r.1.name = j.name := name_callback hU (w := w) (by rw [hc])
      rw [hr, JobModel.name_of_fetch hj]
      exact hne
    have hfail := Queue.run_jobHandleFailure_error env q .failed hser
      "Moved to the failed registry, due to AbandonedJobError" w₁
    have hget := After.run_get_error hfail
    have hsteps : (q.jobHandleFailure env .failed r.1
        "Moved to the failed registry, due to AbandonedJobError").Steps
        (ExecOr q.name r.1.name (SparesStep n)) (Named r.1.name) := jobHandleFailure_steps rfl _ _
    have hspares := spares_of_steps ((others hU).of_exec hsteps hname) w₁
    rw [Prog.exec_eq_of_run hfail] at hspares
    simp only [Prog.Outcome.andThen_ok, Prog.run_bind, hget, Prog.Outcome.andThen_error]
    exact ⟨hcallback.trans hspares, _, rfl⟩

/-- Nothing is dropped. -/
theorem Stops.spares (hU : UserCode env (SparesStep n)) (h : Stops env q T n w) :
    Spares n w ((Prog.forEach (due q T w) (q.cleanAbandoned env T)).exec (compacted q.name w)) := by
  obtain ⟨l, l', hdue, hpassed, hbreaks⟩ := h
  have hfirst : (Prog.forEach l (q.cleanAbandoned env T)).exec (compacted q.name w)
      = compacted q.name w :=
    Prog.exec_forEach_keeps (I := fun w' => w' = compacted q.name w) (fun p hp w' hw' => by
      subst hw'
      exact exec_passed (hpassed p hp)) rfl
  have hcompacted := spares_compacted (n := n) q.name w
  rw [hdue, Prog.forEach_append]
  refine Prog.exec_bind_keeps ?_ fun _ _ => ?_
  · rw [hfirst]
    exact hcompacted
  · rw [hfirst]
    cases l' with
    | nil => exact hcompacted
    | cons p l' =>
        obtain ⟨hround, x, hx⟩ := (hbreaks p rfl).round hU (q := q)
        refine Prog.exec_bind_keeps (hcompacted.trans hround) fun _ h => ?_
        rw [hx] at h
        cases h

/-! ### A job that is failed -/

/-- The job is recorded as failed, and its entry in the failed registry is `s`. -/
def Done (q : QueueName) (s T now : Int) (n : JobName) (w : World) : Prop :=
  Timed T now w ∧ w.status n = some .failed ∧ (w.registry q .failed).score n = some s

theorem Done.reported {s now : Int} (h : Done q.name s T now n w) : Reported q.name n w :=
  ⟨h.2.1, (SortedSet.mem_iff_exists _ _).2 ⟨s, h.2.2⟩⟩

theorem Done.cleaned {s now : Int} (h : Done q.name s T now n w) (hs : T < s) (r : Registry) :
    Done q.name s T now n (r.cleaned (some T) w) := by
  have hfind : (r.cleaned (some T) w).jobs.find? n = w.jobs.find? n := by rw [Registry.cleaned_jobs]
  refine ⟨h.1.of_now (Registry.cleaned_now r _ w), (status_congr hfind).trans h.2.1, ?_⟩
  · rw [Registry.score_cleaned, h.1.2]
    split
    · rw [h.2.2]
      simp [Option.filter, hs]
    · exact h.2.2

theorem Spares.done {s now : Int} {w' : World} (h : Spares n w w')
    (hw : Done q.name s T now n w) : Done q.name s T now n w' :=
  ⟨hw.1.of_now h.clock, h.field (f := .status) hw.2.1,
    h.score q.name .failed s (Or.inr rfl) hw.2.2⟩

/-- `job_handle_failure` of an object that can be stored. -/
theorem done_failure {j : JobModel} {now : Int} (ht : Timed T now w) (hj : j.name = n)
    (hser : j.serializable = true) (httl : env.config.DEFAULT_FAILURE_TTL ≠ 0) (exc : String) :
    Done q.name (currentTimestamp now + secs env.config.DEFAULT_FAILURE_TTL) T now n
      ((q.jobHandleFailure env .failed j exc).exec w) := by
  refine ⟨ht.of_now (now_failure _ _ _ _), ?_, ?_⟩
  · have hended : (q.endedWorld .failed j env.config.DEFAULT_FAILURE_TTL .failed w).status n
        = some .failed := by
      rw [Queue.endedWorld, World.status_saveJob,
        if_pos ⟨hj.symm, written_status_ended j .failed w.now⟩]
      rfl
    rw [Prog.exec_eq_of_run (Queue.run_jobHandleFailure env q .failed hser exc w)]
    refine (status_congr ?_).trans hended
    rw [resultWorld_jobs]
  · rw [Queue.registry_exec_jobHandleFailure]
    unfold JobModel.moved
    dsimp only
    rw [if_neg httl, World.score_zadd, if_pos ⟨rfl, rfl, hj.symm⟩]
    exact congrArg (fun t => some (currentTimestamp t + _)) ht.1

/-- The round of the job. -/
theorem done_failAbandoned (hU : UserCode env (SparesStep n)) {j : JobModel} {now : Int}
    {r : JobModel × Unit} (ht : Timed T now w) (hj : j.name = n)
    (hr : ((After.get (j.callFailureCallback env)).run w).val = .ok r)
    (hser : r.1.serializable = true) (httl : env.config.DEFAULT_FAILURE_TTL ≠ 0)
    (hlasts : T < currentTimestamp now + secs env.config.DEFAULT_FAILURE_TTL) :
    Done q.name (currentTimestamp now + secs env.config.DEFAULT_FAILURE_TTL) T now n
      ((failAbandoned env q T j).exec w) := by
  have hname : r.1.name = n := (name_callback hU hr).trans hj
  have ht' := ht.of_now (callback_spares hU j w).clock
  have hdone := done_failure (q := q) ht' hname hser httl
    "Moved to the failed registry, due to AbandonedJobError"
  rw [failAbandoned, Prog.exec_bind, hr]
  refine Prog.exec_bind_keeps ?_ fun _ _ => cleanAll_keeps (fun w r _ h => h.cleaned hlasts r) ?_
  · rw [After.exec_get]
    exact hdone
  · rw [After.exec_get]
    exact hdone

/-- `clean_registries` reports the job. -/
theorem Fails.reported (hU : UserCode env (SparesStep n)) {s : Int} {l l' : List (Int × JobName)}
    {j : JobModel} {r : JobModel × Unit} (hT : Registry.cleanupScore (some T) w = T)
    (h : Fails env q T n w s l l' j r) : Reported q.name n
      ((Prog.forEach (due q T w) (q.cleanAbandoned env T)).exec (compacted q.name w)) := by
  have hothers := others hU
  -- no other entry is the job's
  have hnodup := (w.registry q.name .active).rangeByScore_nodup 0 T
  rw [show (w.registry q.name .active).rangeByScore 0 T = _ from h.split, List.map_append,
    List.map_cons, List.nodup_middle, List.nodup_cons, List.mem_append, not_or] at hnodup
  have hne : ∀ p ∈ l, p.2 ≠ n := fun p hp hn =>
    hnodup.1.1 (List.mem_map.2 ⟨p, hp, hn⟩)
  have hne' : ∀ p ∈ l', p.2 ≠ n := fun p hp hn =>
    hnodup.1.2 (List.mem_map.2 ⟨p, hp, hn⟩)
  -- the rounds before the job's keep its record
  obtain ⟨v, hv, hload⟩ := Option.bind_eq_some_iff.1 h.fetch
  have hbefore : Timed T w.now (reached env q T l w) ∧
      (reached env q T l w).jobs.find? n = some v := by
    refine Prog.exec_forEach_keeps (I := fun w' => Timed T w.now w' ∧ w'.jobs.find? n = some v)
      (fun p hp w' hw' => ?_) ⟨Timed.of_now ⟨rfl, hT⟩ rfl, hv⟩
    refine round_keeps (I := fun w' => Timed T w.now w' ∧ w'.jobs.find? n = some v) hothers
      (fun w w' _ hs hw => ⟨hw.1.of_now hs.clock, hs.record v hw.2⟩)
      (fun w r _ hw => ⟨hw.1.of_now (Registry.cleaned_now r _ w), ?_⟩) (hne p hp) hw'
    rw [Registry.cleaned_jobs]
    exact hw.2
  have hfetch : JobModel.fetch env (reached env q T l w) n = some j := by
    rw [JobModel.fetch, hbefore.2]
    exact hload
  have hround := done_failAbandoned (q := q) hU hbefore.1 (JobModel.name_of_fetch h.fetch)
    h.callback h.stored h.registered h.lasts
  have hfail : (q.cleanAbandoned env T (s, n)).exec (reached env q T l w)
      = (failAbandoned env q T j).exec (reached env q T l w) :=
    congrArg Prog.Outcome.state (run_abandoned hfetch h.passed)
  rw [← hfail] at hround
  -- the rounds after it keep it reported
  have hall : Done q.name (currentTimestamp w.now + secs env.config.DEFAULT_FAILURE_TTL) T w.now n
      ((Prog.forEach ((s, n) :: l') (q.cleanAbandoned env T)).exec (reached env q T l w)) := by
    refine Prog.exec_bind_keeps hround fun _ _ => ?_
    refine Prog.exec_forEach_keeps (fun p hp w' hw' => ?_) hround
    exact round_keeps hothers (fun _ _ _ hs hw => hs.done hw)
      (fun w r _ hw => hw.cleaned h.lasts r) (hne' p hp) hw'
  rw [h.split, Prog.forEach_append, Prog.exec_bind, h.before]
  exact hall.reported

/-- `clean_registries` keeps the job tracked, and drops it only when it reports it. -/
theorem Tracked.clean (hU : UserCode env (SparesStep n)) (hw : Tracked n w)
    (timestamp : Option Int)
    (h : CleanFits env q (Registry.cleanupScore timestamp w) n w) :
    Tracked n ((q.cleanRegistries env timestamp).exec w) ∧ ∀ q', Runs q' n w →
      ((q.cleanRegistries env timestamp).exec w).inRegistry q' .active n ∨
        Reported q' n ((q.cleanRegistries env timestamp).exec w) := by
  rw [exec_cleanRegistries]
  have hT := Registry.cleanupScore_cleanupScore timestamp w
  generalize Registry.cleanupScore timestamp w = T at h hT ⊢
  have hcompacted := spares_compacted (n := n) q.name w
  by_cases hs : w.status n = some .started
  · obtain ⟨q', hq', hin⟩ := hw hs
    have hqueue : ∀ q'', Runs q'' n w → q'' = q' := fun q'' hruns => Runs.queue ⟨hs, hq'⟩ hruns
    obtain ⟨s, hscore⟩ := (SortedSet.mem_iff_exists _ _).1 hin
    by_cases hover : q' = q.name ∧ 0 ≤ s ∧ s ≤ T
    · obtain ⟨rfl, hrange⟩ := hover
      rcases h ⟨⟨hs, hq'⟩, s, hscore, hrange⟩ with hstops | ⟨s, l, l', j, r, hfails⟩
      · have hspares := hstops.spares hU
        refine ⟨hspares.tracked hw, fun q'' hruns => Or.inl ?_⟩
        rw [hqueue q'' hruns]
        exact hspares.member hin
      · have hreported := hfails.reported hU hT
        refine ⟨Idle.tracked fun hs' => ?_, fun q'' hruns => Or.inr ?_⟩
        · rw [hreported.1] at hs'
          cases hs'
        · rw [hqueue q'' hruns]
          exact hreported
    · have hout : q' = q.name → ¬ (0 ≤ s ∧ s ≤ T) := fun hq hrange => hover ⟨hq, hrange⟩
      have hstart : Stays q' s T w.now n (compacted q.name w) :=
        hcompacted.stays ⟨⟨rfl, hT⟩, hscore, Or.inl hq'⟩
      have hend := Prog.exec_forEach_keeps (I := Stays q' s T w.now n)
        (l := due q T w) (f := q.cleanAbandoned env T) (fun p hp w' hw' => by
          refine hw'.round hU hout fun hn hq => ?_
          subst hn hq
          obtain ⟨hs', hrange⟩ := (SortedSet.mem_rangeByScore ..).1 hp
          rw [hscore] at hs'
          cases hs'
          exact hout rfl hrange) hstart
      refine ⟨hend.2.tracked, fun q'' hruns => Or.inl ?_⟩
      rw [hqueue q'' hruns]
      exact (SortedSet.mem_iff_exists _ _).2 ⟨s, hend.2.1⟩
  · have hidle : Idle n ((Prog.forEach (due q T w) (q.cleanAbandoned env T)).exec
        (compacted q.name w)) :=
      Prog.exec_forEach_keeps (fun p _ w' hw' => hw'.round hU p) (hcompacted.idle hs)
    exact ⟨hidle.tracked, fun q' hruns => absurd hruns.1 hs⟩

end Cleaning

end DailyScheduler.Started
