import DailyScheduler.Scheduling.Handover
import DailyScheduler.Tasks.Rounds

set_option autoImplicit false

/-! # One failure domain

`enqueue_scheduled_jobs` is one loop over the enabled tasks and one over the scheduled registries, and
none of the rounds catches what it raises. A task that cannot be scheduled keeps the tasks after it
from their jobs and all due jobs from being enqueued; a record that does not deserialize keeps the
due jobs of its registry and of the following ones.
-/

namespace DailyScheduler.Isolation

open AtomicProg Rescheduling

/-! ## The round of a registry -/

/-- The names that the pass takes from the scheduled registry of `q`. -/
def taken (q : QueueName) (w : World) : List JobName :=
  Handover.takenNames ⟨q, true⟩ (currentTimestamp w.now) w

/-- The stored hash of the job does not deserialize. -/
def Damaged (n : JobName) (w : World) : Prop := w.jobExists n = true ∧ ¬ w.loadable n

/-- There are due jobs, and the queue is no longer configured or one of their records is damaged. -/
def Blocked (env : Env) (q : QueueName) (w : World) : Prop :=
  taken q w ≠ [] ∧ (env.queues q = none ∨ ∃ n ∈ taken q w, Damaged n w)

/-- What the round of the queue `q` leaves as it was. -/
structure Leaves (q : QueueName) (w w' : World) : Prop where
  now : w'.now = w.now
  tasks : w'.tasks = w.tasks
  registry : ∀ q', q' ≠ q → w'.registry q' .scheduled = w.registry q' .scheduled
  shrinks : ∀ n, w'.inRegistry q .scheduled n → w.inRegistry q .scheduled n
  loadable : ∀ n, w'.loadable n ↔ w.loadable n
  exists_ : ∀ n, w'.jobExists n = w.jobExists n
  encoded : Encoded w → Encoded w'
  pending : ∀ t : Task, t.Pending w → t.Pending w'

section Leaving

variable {env : Env} {q : QueueName} {w w' w'' : World}

theorem Leaves.refl (q : QueueName) (w : World) : Leaves q w w :=
  ⟨rfl, rfl, fun _ _ => rfl, fun _ h => h, fun _ => Iff.rfl, fun _ => rfl, fun h => h,
    fun _ h => h⟩

theorem Leaves.trans (h : Leaves q w w') (h' : Leaves q w' w'') : Leaves q w w'' where
  now := h'.now.trans h.now
  tasks := h'.tasks.trans h.tasks
  registry := fun q' hq' => (h'.registry q' hq').trans (h.registry q' hq')
  shrinks := fun n hn => h.shrinks n (h'.shrinks n hn)
  loadable := fun n => (h'.loadable n).trans (h.loadable n)
  exists_ := fun n => (h'.exists_ n).trans (h.exists_ n)
  encoded := fun he => h'.encoded (h.encoded he)
  pending := fun t ht => h'.pending t (h.pending t ht)

theorem Leaves.taken (h : Leaves q w w') {q' : QueueName} (hq' : q' ≠ q) :
    taken q' w' = taken q' w := by
  unfold Isolation.taken Handover.takenNames
  rw [h.now, h.registry q' hq']

theorem Leaves.damaged_iff (h : Leaves q w w') (n : JobName) : Damaged n w' ↔ Damaged n w := by
  unfold Damaged
  rw [h.exists_ n, h.loadable n]

theorem Leaves.blocked_iff (h : Leaves q w w') {q' : QueueName} (hq' : q' ≠ q) :
    Blocked env q' w' ↔ Blocked env q' w := by
  unfold Blocked
  rw [h.taken hq']
  refine and_congr_right fun _ => or_congr Iff.rfl ?_
  exact exists_congr fun n => and_congr_right fun _ => h.damaged_iff n

/-- Handing a loaded job over. -/
theorem leaves_enqueuedWorld {j : JobModel} (hload : w.loadable j.name)
    (hser : j.serializable = true) (atFront : Bool) :
    Leaves q w ((Queue.mk q true).enqueuedWorld j atFront w) := by
  let j' := Queue.enqueuedModel j w.now
  have hname : j'.name = j.name := rfl
  have hload' : (w.saveJob j' false).loadable j.name :=
    World.loadable_saveJob (.inl hload)
  have hfind : ∀ n, n ≠ j.name → (w.saveJob j' false).jobs.find? n = w.jobs.find? n :=
    fun n hn => World.find?_saveJob_of_ne w j' false hn
  refine ⟨rfl, rfl, fun q' hq' => ?_, fun n hn => ?_, fun n => ?_, fun n => ?_, fun he => ?_,
    fun t ht => ?_⟩
  · simp [Queue.enqueuedWorld, World.zadd, World.zrem, World.registry_setRegistry, hq']
  · unfold Queue.enqueuedWorld at hn
    rw [World.inRegistry_zadd, World.inRegistry_zrem] at hn
    rcases hn with ⟨-, hk, -⟩ | ⟨-, hn⟩
    · cases hk
    · exact hn
  · show (w.saveJob j' false).loadable n ↔ _
    by_cases hn : n = j.name
    · subst hn
      exact ⟨fun _ => hload, fun _ => hload'⟩
    · unfold World.loadable
      rw [hfind n hn]
  · show (w.saveJob j' false).jobExists n = _
    by_cases hn : n = j.name
    · subst hn
      rw [hload'.jobExists, hload.jobExists]
    · unfold World.jobExists
      rw [Bool.eq_iff_iff, TtlMap.contains_iff, TtlMap.contains_iff, hfind n hn]
  · have hmodel : j'.serializable = true := hser
    exact Encoded.saveJob he hmodel false
  · obtain ⟨n, hn, -⟩ := id ht
    have hsaved : t.Pending (w.saveJob j' false) := ht
    exact Task.pending_push hn q j.name _ hsaved

end Leaving

section Round

variable {env : Env} {q : QueueName} {w : World}

/-- What a round does that hands the jobs `names` over. -/
structure HandsAll (q : QueueName) (names : List JobName) (w : World)
    (o : Prog.Outcome World Event PyError Unit) : Prop where
  val : o.val = .ok ()
  leaves : Leaves q w o.state
  enqueued : ∀ n ∈ names, .enqueued q n ∈ o.trace ∧ ¬ o.state.inRegistry q .scheduled n
  events : ∀ i n, .taskScheduled i n ∉ o.trace

/-- The loop over the loaded jobs. -/
theorem handsAll_forEach (js : List (Option JobModel))
    (hjs : ∀ j, some j ∈ js → w.loadable j.name ∧ j.serializable = true) :
    HandsAll q (js.filterMap fun x => x.map JobModel.name) w
      ((Prog.forEach js (Handover.handOne env ⟨q, true⟩)).run w) := by
  induction js generalizing w with
  | nil => exact ⟨rfl, Leaves.refl q w, fun n hn => (List.not_mem_nil hn).elim,
      fun _ _ => List.not_mem_nil⟩
  | cons x js ih =>
      have htail : ∀ j, some j ∈ js → w.loadable j.name ∧ j.serializable = true :=
        fun j hj => hjs j (List.mem_cons_of_mem x hj)
      cases x with
      | none =>
          have hrun : (Prog.forEach (none :: js) (Handover.handOne env ⟨q, true⟩)).run w
              = (Prog.forEach js (Handover.handOne env ⟨q, true⟩)).run w := rfl
          rw [hrun]
          exact ih htail
      | some j =>
          obtain ⟨hload, hser⟩ := hjs j List.mem_cons_self
          let w₁ := (Queue.mk q true).enqueuedWorld j (j.atFront.getD false) w
          have hleaves : Leaves q w w₁ := leaves_enqueuedWorld hload hser _
          have hone : (Handover.handOne env ⟨q, true⟩ (some j)).run w
              = ⟨.ok (), w₁, [.enqueued q j.name]⟩ := by
            have hasync : (Queue.mk q true).isAsync = true := rfl
            have hrun := Queue.run_enqueueJob env hasync hser (j.atFront.getD false) w
            unfold Handover.handOne
            rw [Prog.run_bind, hrun]
            rfl
          obtain ⟨hval, hrest, henq, hevents⟩ := ih (w := w₁) fun j' hj' =>
            ⟨(hleaves.loadable j'.name).2 (htail j' hj').1, (htail j' hj').2⟩
          have hrun : (Prog.forEach (some j :: js) (Handover.handOne env ⟨q, true⟩)).run w
              = ((Handover.handOne env ⟨q, true⟩ (some j)).run w).andThen fun _ =>
                Prog.forEach js (Handover.handOne env ⟨q, true⟩) := Prog.run_bind _ _ _
          rw [hrun, hone, Prog.Outcome.andThen_ok]
          refine ⟨hval, hleaves.trans hrest, fun n hn => ?_, fun i n hin => ?_⟩
          · rcases List.mem_cons.1 hn with rfl | hn
            · refine ⟨List.mem_append_left _ (List.mem_singleton.2 rfl), fun hin => ?_⟩
              have hin' := hrest.shrinks _ hin
              have hout : ¬ w₁.inRegistry q .scheduled j.name := by
                show ¬ ((Queue.mk q true).enqueuedWorld j _ w).inRegistry q .scheduled j.name
                unfold Queue.enqueuedWorld
                rw [World.inRegistry_zadd, World.inRegistry_zrem]
                rintro (⟨-, hk, -⟩ | ⟨hnot, -⟩)
                · cases hk
                · exact hnot ⟨rfl, rfl, rfl⟩
              exact hout hin'
            · obtain ⟨hevent, hgone⟩ := henq n hn
              exact ⟨List.mem_append_right _ hevent, hgone⟩
          · rcases List.mem_append.1 hin with hin | hin
            · cases List.mem_singleton.1 hin
            · exact hevents i n hin

/-- `get_many` raises at a damaged record. -/
theorem deserializeAll_damaged {names : List JobName} {n : JobName} (hn : n ∈ names)
    (hd : Damaged n w) :
    ∃ x, JobModel.deserializeAll env (names.map fun n => (n, w.jobs.find? n)) = .error x := by
  cases hjs : JobModel.deserializeAll env (names.map fun n => (n, w.jobs.find? n)) with
  | error x => exact ⟨x, rfl⟩
  | ok js =>
      obtain ⟨v, hv⟩ := (TtlMap.contains_iff _ _).1 hd.1
      rcases (JobModel.deserializeAll_inv hjs).2 n hn with hnone | ⟨j, hj⟩
      · rw [hv] at hnone
        cases hnone
      · rw [JobModel.fetch_eq_none_iff.2 hd.2] at hj
        cases hj

/-- Without a damaged record every due job that loads is handed over. -/
theorem handsAll_enqueueFrom (hW : Workers env) (henc : Encoded w) (hfine : ¬ Blocked env q w) :
    HandsAll q ((taken q w).filter fun n => (JobModel.fetch env w n).isSome) w
      ((WorkerScheduler.enqueueFrom env q).run w) := by
  by_cases hnil : taken q w = []
  · have hrun : (WorkerScheduler.enqueueFrom env q).run w = ⟨.ok (), w, []⟩ := by
      have hnames : ((Registry.mk q .scheduled).getJobsToSchedule (currentTimestamp w.now)).run w
          = ⟨.ok (taken q w), w, []⟩ := rfl
      simp only [WorkerScheduler.enqueueFrom, Prog.run_bind, run_readTimestamp,
        Prog.Outcome.andThen_ok, hnames, List.nil_append, hnil]
      rfl
    rw [hrun, hnil]
    exact ⟨rfl, Leaves.refl q w, fun n hn => (List.not_mem_nil hn).elim,
      fun _ _ => List.not_mem_nil⟩
  · obtain ⟨hconf, hwhole⟩ := not_or.1 fun h => hfine ⟨hnil, h⟩
    have hq : env.queues q = some true := by
      cases hq : env.queues q with
      | none => exact absurd hq hconf
      | some isAsync =>
          cases isAsync with
          | true => rfl
          | false => exact absurd hq (hW q)
    have hall : ∀ n ∈ taken q w, w.jobs.find? n = none ∨ ∃ j, JobModel.fetch env w n = some j := by
      intro n hn
      by_cases hload : w.loadable n
      · refine .inr (Option.ne_none_iff_exists'.1 fun hnone => ?_)
        exact JobModel.fetch_eq_none_iff.1 hnone hload
      · refine .inl ?_
        cases hv : w.jobs.find? n with
        | none => rfl
        | some v =>
            exact absurd ⟨n, hn, (TtlMap.contains_iff _ _).2 ⟨v, hv⟩, hload⟩ hwhole
    obtain ⟨js, hjs⟩ := JobModel.deserializeAll_ok hall
    have hget : ((JobModel.getMany env (taken q w)).run w).val = .ok js := by
      rw [JobModel.run_getMany]
      exact hjs
    have hloaded : ∀ j, some j ∈ js → w.loadable j.name ∧ j.serializable = true := by
      intro j hj
      have hfetch := (JobModel.getMany_mem hget hj).2
      refine ⟨?_, henc.serializable hfetch⟩
      by_contra hnot
      rw [JobModel.fetch_eq_none_iff.2 hnot] at hfetch
      cases hfetch
    have hrun := Handover.run_enqueueFrom (q := ⟨q, true⟩) hq w
    have hempty : ¬ (Handover.takenNames ⟨q, true⟩ (currentTimestamp w.now) w).isEmpty = true := by
      rw [List.isEmpty_iff]
      exact hnil
    have hjs' : JobModel.deserializeAll env ((Handover.takenNames ⟨q, true⟩
        (currentTimestamp w.now) w).map fun n => (n, w.jobs.find? n)) = .ok js := hjs
    rw [if_neg hempty, hjs'] at hrun
    have hrun' : (WorkerScheduler.enqueueFrom env q).run w
        = (Prog.forEach js (Handover.handOne env ⟨q, true⟩)).run w := hrun
    have hhands : HandsAll q _ w ((Prog.forEach js (Handover.handOne env ⟨q, true⟩)).run w) :=
      handsAll_forEach js hloaded
    rw [hrun']
    refine ⟨hhands.val, hhands.leaves, fun n hn => hhands.enqueued n ?_, hhands.events⟩
    obtain ⟨hin, hsome⟩ := List.mem_filter.1 hn
    obtain ⟨j, hj⟩ := Option.isSome_iff_exists.1 hsome
    obtain ⟨a, b, rfl, -⟩ := Handover.deserializeAll_split (Handover.takenNames_nodup ..) hjs hin hj
    refine List.mem_filterMap.2 ⟨some j, by simp, ?_⟩
    rw [Option.map_some, JobModel.name_of_fetch hj]

/-- A blocked registry ends the pass. -/
theorem run_enqueueFrom_blocked (hW : Workers env) (h : Blocked env q w) :
    ∃ x, (WorkerScheduler.enqueueFrom env q).run w = ⟨.error x, w, []⟩ := by
  obtain ⟨hne, hbad⟩ := h
  cases hq : env.queues q with
  | none =>
      refine ⟨.queueNotFoundError q, ?_⟩
      have hnames : ((Registry.mk q .scheduled).getJobsToSchedule (currentTimestamp w.now)).run w
          = ⟨.ok (taken q w), w, []⟩ := rfl
      have hempty : ¬ (taken q w).isEmpty = true := by
        rw [List.isEmpty_iff]
        exact hne
      have hqueue : getQueue env q = throw (.queueNotFoundError q) := by
        unfold getQueue
        rw [hq]
      simp only [WorkerScheduler.enqueueFrom, Prog.run_bind, run_readTimestamp,
        Prog.Outcome.andThen_ok, hnames, List.nil_append, if_neg hempty, hqueue]
      rfl
  | some isAsync =>
      have hq' : env.queues q = some true := by
        cases isAsync with
        | true => exact hq
        | false => exact absurd hq (hW q)
      obtain ⟨n, hn, hd⟩ := hbad.resolve_left (by rw [hq]; exact Option.some_ne_none isAsync)
      obtain ⟨x, hx⟩ := @deserializeAll_damaged env w _ n hn hd
      refine ⟨x, ?_⟩
      have hrun := Handover.run_enqueueFrom (q := ⟨q, true⟩) hq' w
      have hempty : ¬ (Handover.takenNames ⟨q, true⟩ (currentTimestamp w.now) w).isEmpty = true := by
        rw [List.isEmpty_iff]
        exact hne
      have hx' : JobModel.deserializeAll env ((Handover.takenNames ⟨q, true⟩
          (currentTimestamp w.now) w).map fun n => (n, w.jobs.find? n)) = .error x := hx
      rw [if_neg hempty, hx'] at hrun
      exact hrun

end Round

/-! ## The loop over the registries -/

section Registries

variable {env : Env} {l : List QueueName}

/-- A round leaves the other registries as they were, whether it raises or not. -/
theorem leaves_enqueueFrom (hW : Workers env) (q : QueueName) {w : World} (henc : Encoded w) :
    Leaves q w ((WorkerScheduler.enqueueFrom env q).exec w) := by
  by_cases hblocked : Blocked env q w
  · obtain ⟨x, hrun⟩ := run_enqueueFrom_blocked hW hblocked
    rw [Prog.exec_eq_of_run hrun]
    exact Leaves.refl q w
  · exact (handsAll_enqueueFrom hW henc hblocked).leaves

theorem registries_apart (hW : Workers env) :
    Rounds.Apart Encoded (Blocked env) (WorkerScheduler.enqueueFrom env) l where
  keeps := fun q _ _ henc => (leaves_enqueueFrom hW q henc).encoded henc
  returns := fun _ _ _ henc hfine => (handsAll_enqueueFrom hW henc hfine).val
  raises := fun _ _ w _ hblocked => by
    obtain ⟨x, hrun⟩ := run_enqueueFrom_blocked hW hblocked
    exact ⟨x, by rw [hrun]⟩
  apart := fun q _ _ _ hne _ henc => (leaves_enqueueFrom hW q henc).blocked_iff hne.symm

/-- A due job that loads waits for the round of its registry. -/
theorem registries_serve (hW : Workers env) (q : QueueName) (n : JobName) :
    Rounds.Serves Encoded (Blocked env) (WorkerScheduler.enqueueFrom env) l q
      (fun w => n ∈ taken q w ∧ w.loadable n)
      (fun c => c.1.inRegistry q .scheduled n)
      (fun c => .enqueued q n ∈ c.2 ∧ ¬ c.1.inRegistry q .scheduled n) where
  serve := fun c henc hwants hfine => by
    have hhands := handsAll_enqueueFrom hW henc hfine
    have hfetch : (JobModel.fetch env c.1 n).isSome = true := by
      rw [Option.isSome_iff_ne_none]
      exact fun hnone => JobModel.fetch_eq_none_iff.1 hnone hwants.2
    obtain ⟨hevent, hgone⟩ := hhands.enqueued n (List.mem_filter.2 ⟨hwants.1, hfetch⟩)
    exact ⟨List.mem_append_right _ hevent, hgone⟩
  failed := fun c _ hblocked hpend => by
    obtain ⟨x, hrun⟩ := run_enqueueFrom_blocked hW hblocked
    rw [Prog.after_of_run hrun]
    exact hpend
  wants := fun q' _ hne w henc hwants => by
    have hleaves := leaves_enqueueFrom hW q' henc
    rw [hleaves.taken hne.symm]
    exact ⟨hwants.1, (hleaves.loadable n).2 hwants.2⟩
  pend := fun q' _ hne c henc hpend => by
    have hleaves := leaves_enqueueFrom hW q' henc
    show ((WorkerScheduler.enqueueFrom env q').exec c.1).inRegistry q .scheduled n
    rw [World.inRegistry_iff, hleaves.registry q hne.symm]
    exact hpend
  got := fun q' _ hne c henc hgot => by
    have hleaves := leaves_enqueueFrom hW q' henc
    refine ⟨List.mem_append_left _ hgot.1, ?_⟩
    show ¬ ((WorkerScheduler.enqueueFrom env q').exec c.1).inRegistry q .scheduled n
    rw [World.inRegistry_iff, hleaves.registry q hne.symm]
    exact hgot.2

/-- The rounds of the registries leave the tasks their jobs, and give no task a job. -/
theorem registries_tasks (hW : Workers env) (l : List QueueName) {t : Task} {n : JobName}
    {c : Config World Event} (henc : Encoded c.1) :
    (HasJob t n c.1 c.2 → HasJob t n ((Prog.forEach l (WorkerScheduler.enqueueFrom env)).after c).1
        ((Prog.forEach l (WorkerScheduler.enqueueFrom env)).after c).2) ∧
      ((∀ m, .taskScheduled t.id m ∉ c.2) →
        ∀ m, .taskScheduled t.id m ∉ ((Prog.forEach l (WorkerScheduler.enqueueFrom env)).after c).2) := by
  constructor
  · intro hjob
    have hinv : (Prog.forEach l (WorkerScheduler.enqueueFrom env)).Inv
        (fun c => Encoded c.1 ∧ HasJob t n c.1 c.2) fun _ => True := by
      refine Prog.Inv.forEach fun q _ => Prog.Inv.of_run fun c hc => ⟨⟨?_, ?_⟩, fun _ _ => trivial⟩
      · exact (leaves_enqueueFrom hW q hc.1).encoded hc.1
      · have hleaves := leaves_enqueueFrom hW q hc.1
        obtain ⟨⟨r, hrow, hn, hp⟩, hevent⟩ := hc.2
        refine ⟨⟨r, ?_, hn, hleaves.pending r hp⟩, List.mem_append_left _ hevent⟩
        show ((WorkerScheduler.enqueueFrom env q).exec c.1).tasks.find? t.id = some r
        rw [hleaves.tasks]
        exact hrow
    exact (hinv.ends (c := c) ⟨henc, hjob⟩).1.2
  · intro hnone
    have hinv : (Prog.forEach l (WorkerScheduler.enqueueFrom env)).Inv
        (fun c => Encoded c.1 ∧ ∀ m, .taskScheduled t.id m ∉ c.2) fun _ => True := by
      refine Prog.Inv.forEach fun q _ => Prog.Inv.of_run fun c hc => ⟨⟨?_, ?_⟩, fun _ _ => trivial⟩
      · exact (leaves_enqueueFrom hW q hc.1).encoded hc.1
      · intro m hm
        rcases List.mem_append.1 hm with hm | hm
        · exact hc.2 m hm
        · by_cases hblocked : Blocked env q c.1
          · obtain ⟨x, hrun⟩ := run_enqueueFrom_blocked hW hblocked
            rw [hrun] at hm
            cases hm
          · exact (handsAll_enqueueFrom hW hc.1 hblocked).events _ m hm
    exact (hinv.ends (c := c) ⟨henc, hnone⟩).1.2

end Registries

/-! ## What the loop over the tasks leaves of the due jobs -/

/-- The job is due. -/
def DueJob (q : QueueName) (n : JobName) (w : World) : Prop :=
  ∃ sc, (w.registry q .scheduled).score n = some sc ∧ 0 ≤ sc ∧ sc ≤ currentTimestamp w.now

/-- The queue has due jobs and is not configured, or one of its due jobs has a damaged record. -/
def Blocks (env : Env) (q : QueueName) (w : World) : Prop :=
  (∃ n, DueJob q n w) ∧ (env.queues q = none ∨ ∃ n, DueJob q n w ∧ Damaged n w)

def enabledTasks (w : World) : List Task := w.tasks.rows.filter Task.enabled

/-- With a new job for each enabled task the due jobs of the queue are at most as many as a pass
takes. -/
def Few (q : QueueName) (w : World) : Prop :=
  (Handover.dueEntries ⟨q, true⟩ (currentTimestamp w.now) w).length + (enabledTasks w).length ≤ 1000

/-- Jobs that exist stay as they are; jobs with a name of `N` may be added, to configured queues. -/
structure Grows (env : Env) (N : List JobName) (w w' : World) : Prop where
  now : w'.now = w.now
  jobs : ∀ m, w.jobExists m = true → w'.jobs.find? m = w.jobs.find? m
  scores : ∀ m, w.jobExists m = true ∨ m ∉ N → ∀ q k,
    (w'.registry q k).score m = (w.registry q k).score m
  fresh : ∀ m, w.jobExists m = false → w'.jobExists m = true → w'.loadable m
  unconfigured : ∀ q, env.queues q = none → ∀ k, w'.registry q k = w.registry q k

section Growing

variable {env : Env} {N : List JobName} {w w' w'' : World} {q : QueueName} {n : JobName}

theorem Grows.refl (env : Env) (N : List JobName) (w : World) : Grows env N w w where
  now := rfl
  jobs := fun _ _ => rfl
  scores := fun _ _ _ _ => rfl
  fresh := fun m hfree hex => by
    rw [hfree] at hex
    cases hex
  unconfigured := fun _ _ _ => rfl

theorem Grows.trans (h : Grows env N w w') (h' : Grows env N w' w'') : Grows env N w w'' where
  now := h'.now.trans h.now
  jobs := fun m hm => by
    have hm' : w'.jobExists m = true := (World.jobExists_congr (h.jobs m hm)).trans hm
    rw [h'.jobs m hm', h.jobs m hm]
  scores := fun m hm q k => by
    have hm' : w'.jobExists m = true ∨ m ∉ N :=
      hm.imp (fun hm => (World.jobExists_congr (h.jobs m hm)).trans hm) id
    rw [h'.scores m hm' q k, h.scores m hm q k]
  fresh := fun m hfree hex => by
    cases hm : w'.jobExists m with
    | false => exact h'.fresh m hm hex
    | true => exact (World.loadable_congr (h'.jobs m hm)).2 (h.fresh m hfree hm)
  unconfigured := fun q hq k => (h'.unconfigured q hq k).trans (h.unconfigured q hq k)

/-- The round of a task adds at most its job. -/
theorem grows_of_round {t : Task} {o : Prog.Outcome World Event PyError Unit}
    (h : RoundOf env t w o) (hN : t.nextName w ∈ N) : Grows env N w o.state where
  now := h.touches.now
  jobs := fun m hm => by
    by_cases hne : m = t.nextName w
    · subst hne
      rcases h.name with ⟨hfind, -⟩ | ⟨hfree, -⟩
      · exact hfind
      · rw [hfree] at hm
        cases hm
    · exact h.touches.jobs m hne
  scores := fun m hm q k => by
    by_cases hne : m = t.nextName w
    · subst hne
      have hex := hm.resolve_right fun hnot => hnot hN
      rcases h.name with ⟨-, hscore⟩ | ⟨hfree, -⟩
      · exact hscore q k
      · rw [hfree] at hex
        cases hex
    · exact h.touches.scores m hne q k
  fresh := fun m hfree hex => by
    have hchanged : o.state.jobs.find? m ≠ w.jobs.find? m := by
      intro hfind
      rw [World.jobExists_congr hfind, hfree] at hex
      cases hex
    by_cases hne : m = t.nextName w
    · subst hne
      rcases h.name with ⟨hfind, -⟩ | ⟨-, hload⟩
      · exact absurd hfind hchanged
      · exact hload
    · exact absurd (h.touches.jobs m hne) hchanged
  unconfigured := h.touches.unconfigured

theorem grows_forEach (hW : Workers env) {now : Int} {l : List Task} (hl : ∀ t ∈ l, t.enabled = true)
    (hnow : w.now = now) :
    Grows env (l.map fun t => t.nextJobId now) w ((Prog.forEach l (round env)).exec w) := by
  refine Prog.exec_forEach_keeps (I := Grows env (l.map fun t => t.nextJobId now) w)
    (fun t ht v hv => hv.trans (grows_of_round (roundOf hW (hl t ht) v) ?_)) (Grows.refl env _ w)
  refine List.mem_map.2 ⟨t, ht, ?_⟩
  unfold Task.nextName
  rw [hv.now, hnow]

/-- The due entries afterwards are those from before and at most one for each name of `N`. -/
theorem Grows.few (h : Grows env N w w') {k : Nat}
    (hfew : (Handover.dueEntries ⟨q, true⟩ (currentTimestamp w.now) w).length + N.length ≤ k) :
    (Handover.dueEntries ⟨q, true⟩ (currentTimestamp w'.now) w').length ≤ k := by
  have hnodup : ((Handover.dueEntries ⟨q, true⟩ (currentTimestamp w'.now) w').map Prod.snd).Nodup :=
    List.Nodup.sublist (List.filter_sublist.map Prod.snd) (w'.registry q .scheduled).nodup
  have hsub : (Handover.dueEntries ⟨q, true⟩ (currentTimestamp w'.now) w').map Prod.snd
      ⊆ (Handover.dueEntries ⟨q, true⟩ (currentTimestamp w.now) w).map Prod.snd ++ N := by
    intro m hm
    obtain ⟨p, hp, rfl⟩ := List.mem_map.1 hm
    obtain ⟨hin, hT⟩ := List.mem_filter.1 hp
    by_cases hN : p.2 ∈ N
    · exact List.mem_append_right _ hN
    · refine List.mem_append_left _ (List.mem_map.2 ⟨p, List.mem_filter.2 ⟨?_, ?_⟩, rfl⟩)
      · have hscore := (SortedSet.score_eq_some_iff _ _ _).2 hin
        exact (SortedSet.score_eq_some_iff _ _ _).1 ((h.scores p.2 (.inr hN) q .scheduled).symm.trans
          hscore)
      · rw [← h.now]
        exact hT
  have hlen := (hnodup.subperm hsub).length_le
  rw [List.length_append, List.length_map, List.length_map] at hlen
  omega

theorem mem_taken_iff (hfew : (Handover.dueEntries ⟨q, true⟩ (currentTimestamp w.now) w).length ≤ 1000) :
    n ∈ taken q w ↔ DueJob q n w := by
  constructor
  · intro h
    exact Handover.mem_takenNames h
  · rintro ⟨sc, hs, h0, hT⟩
    exact Handover.mem_takenNames_of_due hfew hs h0 hT

theorem Grows.dueJob_iff (h : Grows env N w w') (hn : w.jobExists n = true ∨ n ∉ N) :
    DueJob q n w' ↔ DueJob q n w := by
  unfold DueJob
  rw [h.now, h.scores n hn q .scheduled]

theorem Grows.damaged_iff (h : Grows env N w w') : Damaged n w' ↔ Damaged n w := by
  constructor
  · rintro ⟨hex, hnot⟩
    cases hm : w.jobExists n with
    | false => exact absurd (h.fresh n hm hex) hnot
    | true => exact ⟨hm, fun hload => hnot ((World.loadable_congr (h.jobs n hm)).2 hload)⟩
  · rintro ⟨hex, hnot⟩
    have hfind := h.jobs n hex
    exact ⟨(World.jobExists_congr hfind).trans hex, fun hload => hnot ((World.loadable_congr hfind).1 hload)⟩

/-- The tasks block no registry and free none. -/
theorem Grows.blocked_iff (h : Grows env N w w')
    (hfew : (Handover.dueEntries ⟨q, true⟩ (currentTimestamp w'.now) w').length ≤ 1000) :
    Blocked env q w' ↔ Blocks env q w := by
  have hsame : env.queues q = none → ∀ n, DueJob q n w' ↔ DueJob q n w := by
    intro hq n
    unfold DueJob
    rw [h.now, h.unconfigured q hq]
  constructor
  · rintro ⟨hne, hbad⟩
    rcases hbad with hq | ⟨n, hn, hd⟩
    · obtain ⟨n, hn⟩ := List.exists_mem_of_ne_nil _ hne
      exact ⟨⟨n, (hsame hq n).1 ((mem_taken_iff hfew).1 hn)⟩, .inl hq⟩
    · have hd' : Damaged n w := h.damaged_iff.1 hd
      have hdue := (h.dueJob_iff (.inl hd'.1)).1 ((mem_taken_iff hfew).1 hn)
      exact ⟨⟨n, hdue⟩, .inr ⟨n, hdue, hd'⟩⟩
  · rintro ⟨⟨n, hn⟩, hq | ⟨m, hm, hd⟩⟩
    · have hin := (mem_taken_iff hfew).2 ((hsame hq n).2 hn)
      exact ⟨List.ne_nil_of_mem hin, .inl hq⟩
    · have hin := (mem_taken_iff hfew).2 ((h.dueJob_iff (.inl hd.1)).2 hm)
      exact ⟨List.ne_nil_of_mem hin, .inr ⟨m, hin, h.damaged_iff.2 hd⟩⟩

end Growing

/-! ## A pass -/

/-- World and events after a pass. -/
def passed (env : Env) (s : WorkerScheduler) (w : World) : Config World Event :=
  (s.enqueueScheduledJobs env).after (w, [])

/-- Whatever raises in the pass, each task that is due for scheduling gets a job, and each due job of a
configured queue with a record that deserializes is enqueued. -/
structure Survives (env : Env) (s : WorkerScheduler) (w : World) : Prop where
  tasks : ∀ t ∈ enabledTasks w, Due env t w →
    ∃ n, HasJob t n (passed env s w).1 (passed env s w).2
  jobs : ∀ q ∈ s.registries, env.queues q = some true → ∀ n, DueJob q n w → w.loadable n →
    .enqueued q n ∈ (passed env s w).2 ∧ ¬ (passed env s w).1.inRegistry q .scheduled n

/-- Nothing raises before something that is due: no task that cannot be scheduled comes before one
that is due for scheduling, and where a due job waits in a registry, all tasks can be scheduled and
neither this registry nor an earlier one is blocked. -/
structure FailsLast (env : Env) (s : WorkerScheduler) (w : World) : Prop where
  tasks : ∀ a t b, enabledTasks w = a ++ t :: b → Due env t w → ∀ x ∈ a, ¬ Raises env x w
  jobs : ∀ a q b, s.registries = a ++ q :: b → env.queues q = some true →
    (∃ n, DueJob q n w ∧ w.loadable n) →
      (∀ x ∈ enabledTasks w, ¬ Raises env x w) ∧ ∀ q' ∈ a ++ [q], ¬ Blocks env q' w

/-- The state that a pass finds: the stored values of the jobs were encoded, the scheduler looks after
each registry once, and a pass takes all of its due jobs. -/
structure Found (s : WorkerScheduler) (w : World) : Prop where
  listed : Listed w.now (enabledTasks w)
  encoded : Encoded w
  nodup : s.registries.Nodup
  few : ∀ q ∈ s.registries, Few q w

section Pass

variable {env : Env} {s : WorkerScheduler} {w : World}

theorem after_rescheduleTasks (env : Env) (w : World) :
    (rescheduleTasks env).after (w, []) = (Prog.forEach (enabledTasks w) (round env)).after (w, []) := by
  rw [rescheduleTasks_eq]
  have hread : ((Prog.read fun w : World => w.tasks.rows.filter Task.enabled : Py _).run w).val
      = .ok (enabledTasks w) := rfl
  rw [Prog.after_bind hread]
  rfl

theorem val_rescheduleTasks (env : Env) (w : World) :
    ((rescheduleTasks env).run w).val = ((Prog.forEach (enabledTasks w) (round env)).run w).val := by
  rw [rescheduleTasks_eq, Prog.run_bind, Prog.run_read, Prog.Outcome.andThen_ok]
  rfl

/-- When all tasks could be scheduled the pass goes on to the registries. -/
theorem passed_of_ok (h : ((rescheduleTasks env).run w).val = .ok ()) :
    passed env s w = (Prog.forEach s.registries (WorkerScheduler.enqueueFrom env)).after
      ((rescheduleTasks env).after (w, [])) := by
  unfold passed WorkerScheduler.enqueueScheduledJobs
  rw [Prog.after_bind h]
  generalize (rescheduleTasks env).after (w, []) = c
  cases hv : ((Prog.forEach s.registries (WorkerScheduler.enqueueFrom env)).run c.1).val with
  | error x => exact Prog.after_bind_error hv
  | ok u =>
      rw [Prog.after_bind hv]
      exact Prod.ext rfl (List.append_nil _)

theorem passed_of_error {x : PyError} (h : ((rescheduleTasks env).run w).val = .error x) :
    passed env s w = (rescheduleTasks env).after (w, []) :=
  Prog.after_bind_error h

theorem rescheduleTasks_ok_iff (hW : Workers env) (hl : Listed w.now (enabledTasks w)) :
    ((rescheduleTasks env).run w).val = .ok () ↔ ∀ x ∈ enabledTasks w, ¬ Raises env x w := by
  rw [val_rescheduleTasks]
  exact (rounds_apart hW hl).forEach_ok_iff hl.nodup.of_map rfl

/-- The world in which the loop over the registries begins. -/
theorem afterTasks (hW : Workers env) (h : Found s w) :
    Encoded ((rescheduleTasks env).after (w, [])).1 ∧
      Grows env ((enabledTasks w).map fun t => t.nextJobId w.now) w
        ((rescheduleTasks env).after (w, [])).1 := by
  rw [after_rescheduleTasks]
  exact ⟨Prog.exec_forEach_keeps (I := Encoded)
    (fun t ht v hv => (roundOf hW (h.listed.enabled t ht) v).touches.encoded hv) h.encoded,
    grows_forEach hW h.listed.enabled rfl⟩

theorem Found.few_afterTasks (h : Found s w) {w' : World}
    (hgrows : Grows env ((enabledTasks w).map fun t => t.nextJobId w.now) w w') {q : QueueName}
    (hq : q ∈ s.registries) :
    (Handover.dueEntries ⟨q, true⟩ (currentTimestamp w'.now) w').length ≤ 1000 := by
  refine hgrows.few ?_
  rw [List.length_map]
  exact h.few q hq

/-- The jobs of the tasks when the pass is over. -/
theorem passed_tasks (hW : Workers env) (h : Found s w) {t : Task} {n : JobName} :
    (HasJob t n ((rescheduleTasks env).after (w, [])).1 ((rescheduleTasks env).after (w, [])).2 →
      HasJob t n (passed env s w).1 (passed env s w).2) ∧
    ((∀ m, .taskScheduled t.id m ∉ ((rescheduleTasks env).after (w, [])).2) →
      ∀ m, .taskScheduled t.id m ∉ (passed env s w).2) := by
  cases hv : ((rescheduleTasks env).run w).val with
  | ok u =>
      rw [passed_of_ok hv]
      exact registries_tasks hW s.registries (afterTasks hW h).1
  | error x =>
      rw [passed_of_error hv]
      exact ⟨fun h => h, fun h => h⟩

/-- The tasks get their jobs exactly when none that raises comes first. -/
theorem tasks_iff (hW : Workers env) (h : Found s w) :
    (∀ t ∈ enabledTasks w, Due env t w → ∃ n, HasJob t n (passed env s w).1 (passed env s w).2) ↔
      ∀ a t b, enabledTasks w = a ++ t :: b → Due env t w → ∀ x ∈ a, ¬ Raises env x w := by
  have hnodup := h.listed.nodup.of_map
  constructor
  · intro hall a t b hsplit hdue x hx hraises
    -- the task behind the one that raises has no round
    have ht : t ∈ enabledTasks w := by
      rw [hsplit]
      exact List.mem_append_right _ List.mem_cons_self
    obtain ⟨n, -, hevent⟩ := hall t ht hdue
    have hserve := rounds_serve hW h.listed ht
    have hapart := rounds_apart hW h.listed
    rw [hsplit] at hserve hapart hnodup
    have hpend := hserve.pend_of_fails hapart hnodup (c := (w, [])) rfl
      (fun _ => List.not_mem_nil) (List.mem_append_left _ hx) hraises
    rw [← hsplit, ← after_rescheduleTasks] at hpend
    exact (passed_tasks hW h (n := n)).2 hpend n hevent
  · intro hfirst t ht hdue
    obtain ⟨a, b, hsplit⟩ := List.append_of_mem ht
    have hserve := rounds_serve hW h.listed ht
    have hapart := rounds_apart hW h.listed
    rw [hsplit] at hserve hapart hnodup
    have hgot := hserve.got_of_fine hapart hnodup (c := (w, [])) rfl hdue fun x hx => by
      rcases List.mem_append.1 hx with hx | hx
      · exact hfirst a t b hsplit hdue x hx
      · rw [List.mem_singleton.1 hx]
        exact fun hraises => hraises.1 hdue
    rw [← hsplit, ← after_rescheduleTasks] at hgot
    exact ⟨_, (passed_tasks hW h).1 hgot⟩

/-- A due job is enqueued exactly when no task raises and no registry up to its own is blocked. -/
theorem job_iff (hW : Workers env) (h : Found s w) {a b : List QueueName} {q : QueueName}
    {n : JobName} (hsplit : s.registries = a ++ q :: b) (hdue : DueJob q n w) (hload : w.loadable n) :
    (.enqueued q n ∈ (passed env s w).2 ∧ ¬ (passed env s w).1.inRegistry q .scheduled n) ↔
      (∀ x ∈ enabledTasks w, ¬ Raises env x w) ∧ ∀ q' ∈ a ++ [q], ¬ Blocks env q' w := by
  obtain ⟨henc, hgrows⟩ := afterTasks hW h
  have hsub : ∀ q' ∈ a ++ [q], q' ∈ s.registries := by
    intro q' hq'
    rw [hsplit]
    rcases List.mem_append.1 hq' with hq' | hq'
    · exact List.mem_append_left _ hq'
    · rw [List.mem_singleton.1 hq']
      exact List.mem_append_right _ List.mem_cons_self
  have hq : q ∈ s.registries := hsub q (List.mem_append_right _ (List.mem_singleton.2 rfl))
  have hdue' := (hgrows.dueJob_iff (q := q) (.inl hload.jobExists)).2 hdue
  have hload' := (World.loadable_congr (hgrows.jobs n hload.jobExists)).2 hload
  have htaken := (mem_taken_iff (h.few_afterTasks hgrows hq)).2 hdue'
  have hin : ((rescheduleTasks env).after (w, [])).1.inRegistry q .scheduled n := by
    obtain ⟨sc, hs, -⟩ := hdue'
    rw [World.inRegistry_iff, hs]
    rfl
  have hblocked : ∀ q' ∈ a ++ [q], (Blocked env q' ((rescheduleTasks env).after (w, [])).1 ↔
      Blocks env q' w) :=
    fun q' hq' => hgrows.blocked_iff (h.few_afterTasks hgrows (hsub q' hq'))
  have hnd := h.nodup
  constructor
  · rintro ⟨-, hgone⟩
    have hok : ((rescheduleTasks env).run w).val = .ok () := by
      cases hv : ((rescheduleTasks env).run w).val with
      | ok u => rfl
      | error x =>
          rw [passed_of_error hv] at hgone
          exact absurd hin hgone
    refine ⟨(rescheduleTasks_ok_iff hW h.listed).1 hok, fun q' hq' hblocks => ?_⟩
    -- behind a blocked registry the job stays where it is
    rw [passed_of_ok hok, hsplit] at hgone
    rw [hsplit] at hnd
    exact hgone ((registries_serve hW q n).pend_of_fails (registries_apart hW) hnd henc hin hq'
      ((hblocked q' hq').2 hblocks))
  · rintro ⟨htasks, hregistries⟩
    have hok := (rescheduleTasks_ok_iff hW h.listed).2 htasks
    rw [passed_of_ok hok, hsplit]
    rw [hsplit] at hnd
    exact (registries_serve hW q n).got_of_fine (registries_apart hW) hnd henc ⟨htaken, hload'⟩
      fun q' hq' => (hblocked q' hq').not.2 (hregistries q' hq')

/-- **A pass survives what raises exactly when that comes last.** -/
theorem survives_iff (hW : Workers env) (h : Found s w) :
    Survives env s w ↔ FailsLast env s w := by
  constructor
  · rintro ⟨htasks, hjobs⟩
    refine ⟨(tasks_iff hW h).1 htasks, fun a q b hsplit hq ⟨n, hdue, hload⟩ => ?_⟩
    have hin : q ∈ s.registries := by
      rw [hsplit]
      exact List.mem_append_right _ List.mem_cons_self
    exact (job_iff hW h hsplit hdue hload).1 (hjobs q hin hq n hdue hload)
  · rintro ⟨htasks, hjobs⟩
    refine ⟨(tasks_iff hW h).2 htasks, fun q hin hq n hdue hload => ?_⟩
    obtain ⟨a, b, hsplit⟩ := List.append_of_mem hin
    exact (job_iff hW h hsplit hdue hload).2 (hjobs a q b hsplit hq ⟨n, hdue, hload⟩)

end Pass

/-! ## A task on a queue that is no longer configured -/

/-- The queue `q` alone is configured. -/
def sampleEnv : Env :=
  { Sample.env with queues := fun q => if q = "q" then some true else none }

def sampleScheduler : WorkerScheduler :=
  { WorkerScheduler.new ["q"] 1 10 with locks := ["q"], registries := ["q"] }

/-- A task for the queue `x`, then one for `q`, and a due job in the registry of `q`. -/
def sampleWorld : World :=
  ((((World.init 0).saveJob (Sample.job "a") true).zadd "q" .scheduled "a" 0).putTask
    { Sample.onceTask 5000000 with id := 1, queue := "x" }).putTask
    { Sample.onceTask 5000000 with id := 2 }

theorem sample_workers : Workers sampleEnv := by
  intro q h
  have hq : (if q = "q" then some true else none) = some false := h
  split at hq <;> cases hq

theorem sample_found : Found sampleScheduler sampleWorld where
  listed := {
    enabled := by decide
    nodup := by decide
    names := fun t ht _ _ _ n hn => by
      have hnone : ∀ t ∈ enabledTasks sampleWorld, t.jobName = none := by decide
      rw [hnone t ht] at hn
      cases hn }
  encoded := by
    have hinit : Encoded (World.init 0) := fun n h hn => by cases hn
    exact hinit.saveJob (by decide) true
  nodup := by decide
  few := by
    unfold Few
    decide

/-- The pass raises in the round of the first task, and the due job stays where it is. -/
theorem sample_lost : ¬ Survives sampleEnv sampleScheduler sampleWorld := by
  intro h
  have hdue : DueJob "q" "a" sampleWorld := ⟨0, by decide, by decide, by decide⟩
  have hload : sampleWorld.loadable "a" :=
    World.loadable_saveJob (.inr ⟨rfl, .inl rfl⟩)
  have hevents : (passed sampleEnv sampleScheduler sampleWorld).2 = [] := by decide +kernel
  obtain ⟨hevent, -⟩ := h.jobs "q" (by decide) (by decide) "a" hdue hload
  rw [hevents] at hevent
  cases hevent

theorem sample_fails_first : ¬ FailsLast sampleEnv sampleScheduler sampleWorld :=
  fun h => sample_lost ((survives_iff sample_workers sample_found).2 h)

/-- One task whose queue is no longer configured keeps a due job from being enqueued. -/
theorem not_survives :
    ¬ ∀ (env : Env) (s : WorkerScheduler) (w : World), Workers env → Found s w → Survives env s w :=
  fun h => sample_lost (h _ _ _ sample_workers sample_found)

end DailyScheduler.Isolation
