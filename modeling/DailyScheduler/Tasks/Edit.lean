import DailyScheduler.Model.Sample
import DailyScheduler.Tasks.Inserting
import DailyScheduler.Tasks.Rounds

set_option autoImplicit false

/-! # Saving an edited task

A save writes the row, and the broker is told of it by `_schedule` only, which stops at a task whose job
is pending and at a disabled one. So a save adds at most the next job of the task, and moves or removes
none: what an edit changes is in the registries only if it was so before.
-/

namespace DailyScheduler.TaskEdit

open AtomicProg Transfer

/-- The jobs that `_schedule` created for a task. -/
def scheduledFor (id : Nat) (log : List Event) : Set JobName := {n | .taskScheduled id n ∈ log}

/-- The jobs of the saved task `y` are where the row says: none is left of a disabled task, and those in
scheduled registries are in that of its queue, at its time. -/
structure Reflected (y : Task) (made : Set JobName) (w : World) : Prop where
  disabled : y.enabled = false → ∀ n ∈ made, ∀ q,
    ¬ w.inRegistry q .scheduled n ∧ ¬ w.inRegistry q .queued n
  enabled : y.enabled = true → ∀ n ∈ made, ∀ q s, (w.registry q .scheduled).score n = some s →
    q = y.queue ∧ y.scheduledTime = some s

/-- The object `save` goes on with: what `clean` made of `t`, or, when it is not called, `t` as it was
accepted before. -/
def Proceeds (env : Env) (clean : Bool) (t : Task) (now : Int) (x : Task) : Prop :=
  if clean then t.clean env now = .ok x else x = t ∧ Transfer.Accepted env t

/-! ## Jobs that are up to date before the save -/

/-- The save makes the next job of the task. -/
def Creates (env : Env) (x : Task) (w : World) : Prop :=
  x.enabled = true ∧ ¬ x.Pending w ∧
    ∃ x', x.scheduleTime env w.now = .ok x' ∧ x'.inThePast w.now = .ok false

/-- The time of the task after the save: that of the object while its job is pending, and otherwise what
`_schedule_time` makes of it. -/
def TimeAfter (env : Env) (x : Task) (w : World) (s : Int) : Prop :=
  (x.Pending w → x.scheduledTime = some s) ∧
    (¬ x.Pending w → ∃ x', x.scheduleTime env w.now = .ok x' ∧ x'.scheduledTime = some s)

/-- Before the save no job of a disabled task waits, and those of an enabled task are scheduled in the
queue and for the time of the edited object, but for an entry that the next job replaces. The score of
the next job is right: the time is not a naive one to which the wrong offset is given. -/
structure UpToDate (env : Env) (x : Task) (made : Set JobName) (w : World) : Prop where
  disabled : x.enabled = false → ∀ n ∈ made, ∀ q,
    ¬ w.inRegistry q .scheduled n ∧ ¬ w.inRegistry q .queued n
  enabled : x.enabled = true → ∀ n ∈ made, ∀ q s, (w.registry q .scheduled).score n = some s →
    ¬ (Creates env x w ∧ q = x.queue ∧ n = x.nextName w) → q = x.queue ∧ TimeAfter env x w s
  fresh : Creates env x w → ∀ q, w.inRegistry q .scheduled (x.nextName w) → q = x.queue
  timed : Creates env x w → ∀ s, TimeAfter env x w s → Task.scoreOf env s = s

/-! ## What a save does -/

section Saving

variable {env : Env} {t x y : Task} {w w' : World} {es : List Event} {now : Int} {clean : Bool}

theorem Proceeds.accepted (h : Proceeds env clean t now x) : Transfer.Accepted env x := by
  unfold Proceeds at h
  split at h
  · exact ⟨now, (cleaned_of_clean h).1.clean⟩
  · obtain ⟨rfl, haccepted⟩ := h
    exact haccepted

theorem Proceeds.id (h : Proceeds env clean t now x) : x.id = t.id := by
  cases clean with
  | true =>
      have hclean : t.clean env now = .ok x := h
      rw [(cleaned_of_clean hclean).2]
  | false =>
      obtain ⟨rfl, -⟩ : x = t ∧ Transfer.Accepted env t := h
      rfl

theorem Proceeds.run (h : Proceeds env clean t w.now x) :
    (t.save env clean true).run w = (x.saveCleaned env true).run w := by
  cases clean with
  | true =>
      have hclean : t.clean env w.now = .ok x := h
      rw [Task.run_save_clean, hclean]
  | false =>
      obtain ⟨rfl, -⟩ : x = t ∧ Transfer.Accepted env t := h
      rfl

theorem accepted_forgotten (h : Transfer.Accepted env x) : Transfer.Accepted env x.forgotten := by
  obtain ⟨hfields, htime⟩ := h.fields
  have hfields' : x.forgotten.cleanFields env = .ok () := hfields
  by_cases hcron : x.taskType = .cron
  · have hcleaned : Cleaned env 0 x.forgotten := ⟨hfields', fun hne => absurd hcron hne⟩
    exact ⟨0, hcleaned.clean⟩
  · obtain ⟨s, hs⟩ := Option.isSome_iff_exists.1 (htime hcron)
    exact ⟨s, clean_eq_ok hfields' hs fun _ => le_refl s⟩

theorem advanceSchedule_forgotten (x : Task) (now start step : Int) :
    x.forgotten.advanceSchedule now start step = (x.advanceSchedule now start step).forgotten := by
  rcases x with ⟨_, _, _, _, _, _, _, _, _, _, _, _, _, _, _, _, r, _, _⟩
  unfold Task.advanceSchedule
  cases r with
  | none => rfl
  | some r =>
      dsimp only [Task.forgotten]
      split <;> rfl

/-- `_schedule_time` does not look at the job of the task. -/
theorem scheduleTime_forgotten (x : Task) (now : Int) :
    x.forgotten.scheduleTime env now = (x.scheduleTime env now).map Task.forgotten := by
  have hadvance := advanceSchedule_forgotten x now
  have hinterval : x.forgotten.intervalSeconds = x.intervalSeconds := rfl
  unfold Task.scheduleTime
  rw [hinterval]
  generalize x.intervalSeconds = i
  rcases x with ⟨_, _, type, _, _, _, _, _, _, _, _, _, _, _, _, _, _, scheduledTime, cronString⟩
  dsimp only [Task.forgotten]
  cases type with
  | once => rfl
  | cron =>
      cases cronString with
      | none => rfl
      | some c =>
          dsimp only
          cases (env.croniter c).bind (· now) <;> rfl
  | repeatable =>
      cases scheduledTime with
      | none => rfl
      | some s =>
          dsimp only
          split
          · rfl
          · cases i with
            | error e => rfl
            | ok i =>
                dsimp only
                split
                · rfl
                · exact congrArg Except.ok (hadvance s (secs i))

theorem inThePast_forgotten (x : Task) (now : Int) : x.forgotten.inThePast now = x.inThePast now := rfl

/-- The next occurrence of an accepted task has a time. -/
theorem scheduled_of_future (ha : Transfer.Accepted env x) {x' : Task}
    (htime : x.scheduleTime env now = .ok x') (hfuture : x'.inThePast now = .ok false) : ∃ s, x'.scheduledTime = some s := by
  have htype : x'.taskType = x.taskType := by
    rw [Task.scheduleTime_frame htime]
  by_cases hcron : x.taskType = .cron
  · have hc := (cleanFields_eq_ok.1 ha.fields.1).2.2.1 hcron
    unfold Task.cleanCronString at hc
    cases hs : x.cronString with
    | none =>
        rw [hs] at hc
        cases hc
    | some c =>
        rw [Task.scheduleTime_cron hcron hs] at htime
        split at htime
        · cases htime
        · cases htime
          exact ⟨_, rfl⟩
  · cases hs : x'.scheduledTime with
    | some s => exact ⟨s, rfl⟩
    | none =>
        unfold Task.inThePast at hfuture
        rw [hs, htype] at hfuture
        cases hty : x.taskType with
        | cron => exact absurd hty hcron
        | repeatable =>
            rw [hty] at hfuture
            cases hfuture
        | once =>
            rw [hty] at hfuture
            cases hfuture

theorem jobMeta_of_scheduleTime (ha : Transfer.Accepted env x) {x' : Task}
    (htime : x.scheduleTime env now = .ok x') : ∃ m, x'.jobMeta = .ok m := by
  have hframe := Task.scheduleTime_frame htime
  have htype : x'.taskType = x.taskType := by
    rw [hframe]
  have hinterval : x'.intervalSeconds = x.intervalSeconds := by
    rw [hframe]
    rfl
  unfold Task.jobMeta
  rw [htype, hinterval]
  cases hty : x.taskType with
  | cron => exact ⟨_, rfl⟩
  | once => exact ⟨_, rfl⟩
  | repeatable =>
      obtain ⟨i, hi⟩ := interval_of_fields ha.fields.1 hty
      rw [hi]
      exact ⟨_, rfl⟩

/-- `_schedule` of a task without a pending job leaves it, or makes its next job. -/
inductive Next (env : Env) (x : Task) (w : World) : Task → World → List Event → Prop
  | disabled (h : x.enabled = false) : Next env x w x w []
  | late (h : x.enabled = true) {x' : Task} (htime : x.scheduleTime env w.now = .ok x')
      (hpast : x'.inThePast w.now = .ok true) : Next env x w x' w []
  | made (h : x.enabled = true) {x' : Task} (htime : x.scheduleTime env w.now = .ok x')
      (hfuture : x'.inThePast w.now = .ok false) {job : JobModel} {s : Int}
      (hs : x'.scheduledTime = some s) : Next env x w (x'.withJob (x.nextName w))
        (((w.saveJob job false).saveJob job.saved false).zadd x.queue .scheduled (x.nextName w)
          (Task.scoreOf env s))
        [.created (x.nextName w), .taskScheduled x.id (x.nextName w)]

theorem scheduleNext_returned (ha : Transfer.Accepted env x)
    (hrun : (x.scheduleNext env).run w = ⟨.ok y, w', es⟩) : Next env x w y w' es := by
  cases hen : x.enabled with
  | false =>
      rw [Task.run_scheduleNext_disabled hen] at hrun
      split at hrun
      · cases hrun
      · cases hrun
        exact .disabled hen
  | true =>
      cases htime : x.scheduleTime env w.now with
      | error e =>
          rw [Task.run_scheduleNext_error hen htime] at hrun
          cases hrun
      | ok x' =>
          rw [Task.run_scheduleNext hen htime] at hrun
          rcases hpast : x'.inThePast w.now with e | late
          · rw [hpast] at hrun
            cases hrun
          cases late with
          | true =>
              rw [hpast] at hrun
              dsimp only at hrun
              split at hrun
              · cases hrun
              · cases hrun
                exact .late hen htime hpast
          | false =>
              rw [hpast] at hrun
              obtain ⟨hid, hqueue, hname, -⟩ := Rescheduling.same_of_scheduleTime htime
              obtain ⟨s, hs⟩ := scheduled_of_future ha htime hpast
              obtain ⟨isAsync, hq⟩ := isAsync_of_fields ha.fields.1
              rw [← hqueue] at hq
              obtain ⟨m, hm⟩ := jobMeta_of_scheduleTime ha htime
              by_cases hfree : x'.JobFree env w
              · obtain ⟨job, -, -, hcreate⟩ := Task.run_createJob hq hm hs hfree
                rw [hcreate] at hrun
                rw [hname, hid, hqueue] at hrun
                cases hrun
                exact .made hen htime hpast hs
              · obtain ⟨e, he⟩ := Task.run_createJob_error hq hm hs hfree
                rw [he] at hrun
                cases hrun

/-- The save makes no job, and leaves the registries as they are. -/
structure Kept (env : Env) (x : Task) (w : World) (y : Task) (w' : World) (es : List Event) : Prop where
  idle : ¬ Creates env x w
  registry : w'.registry = w.registry
  quiet : ∀ n, .taskScheduled x.id n ∉ es
  queue : y.queue = x.queue
  enabled : y.enabled = x.enabled
  time : x.enabled = true → ∀ s, TimeAfter env x w s ↔ y.scheduledTime = some s

/-- The save makes the next job, and puts it into the scheduled registry of the queue, for the new time. -/
structure Made (env : Env) (x : Task) (w : World) (y : Task) (w' : World) (es : List Event) (s : Int) :
    Prop where
  creates : Creates env x w
  registry : w'.registry
    = (w.zadd x.queue .scheduled (x.nextName w) (Task.scoreOf env s)).registry
  named : ∀ n, .taskScheduled x.id n ∈ es ↔ n = x.nextName w
  queue : y.queue = x.queue
  enabled : y.enabled = true
  scheduled : y.scheduledTime = some s
  time : ∀ s', TimeAfter env x w s' ↔ s' = s

theorem registry_zadd_congr {w w' : World} (h : w'.registry = w.registry) (q : QueueName)
    (k : RegistryKind) (n : JobName) (s : Int) :
    (w'.zadd q k n s).registry = (w.zadd q k n s).registry := by
  unfold World.zadd World.setRegistry
  rw [h]

/-- A task that has no pending job goes on without the name of its job. -/
theorem run_schedule_of_idle (ha : Transfer.Accepted env x) (hp : ¬ x.Pending w) :
    ∃ w₁, (x.schedule env).run w = (x.forgotten.scheduleNext env).run w₁ ∧
      w₁.registry = w.registry ∧ w₁.now = w.now := by
  cases hjob : x.jobName with
  | none =>
      have hforgotten : x.forgotten = x := by
        unfold Task.forgotten
        rw [← hjob]
      refine ⟨w, ?_, rfl, rfl⟩
      rw [Task.run_schedule_of_none hjob, hforgotten]
  | some n =>
      obtain ⟨isAsync, hq⟩ := isAsync_of_fields ha.fields.1
      exact ⟨w.putTask x.forgotten, Task.run_schedule_of_lost hjob hp hq, rfl, rfl⟩

/-- What a save that returns has done. -/
theorem saveCleaned_returned (ha : Transfer.Accepted env x)
    (hrun : (x.saveCleaned env true).run w = ⟨.ok y, w', es⟩) :
    Kept env x w y w' es ∨ ∃ s, Made env x w y w' es s := by
  have hpending : x.Pending (w.putTask x) ↔ x.Pending w := Iff.rfl
  rw [Task.run_saveCleaned] at hrun
  by_cases hp : x.Pending w
  · obtain ⟨isAsync, hq⟩ := isAsync_of_fields ha.fields.1
    rw [Task.run_schedule_of_pending (hpending.2 hp) hq] at hrun
    cases hrun
    refine .inl ⟨fun h => h.2.1 hp, rfl, fun _ => List.not_mem_nil, rfl, rfl, fun _ s => ?_⟩
    exact ⟨fun h => h.1 hp, fun h => ⟨fun _ => h, fun hnot => absurd hp hnot⟩⟩
  · obtain ⟨w₁, hschedule, hreg, hnow⟩ := run_schedule_of_idle (w := w.putTask x) ha hp
    have hname : x.forgotten.nextName w₁ = x.nextName w := by
      show x.nextJobId w₁.now = x.nextJobId w.now
      rw [hnow]
      rfl
    have hreg' : w₁.registry = w.registry := hreg
    have hnow' : w₁.now = w.now := hnow
    -- what `_schedule_time` finds for the object with and without its job
    have htimes : ∀ z, x.forgotten.scheduleTime env w₁.now = .ok z →
        ∃ x', x.scheduleTime env w.now = .ok x' ∧ z = x'.forgotten := by
      intro z hz
      rw [hnow', scheduleTime_forgotten] at hz
      cases hx : x.scheduleTime env w.now with
      | error e =>
          rw [hx] at hz
          cases hz
      | ok x' =>
          rw [hx] at hz
          cases hz
          exact ⟨x', rfl, rfl⟩
    rw [hschedule] at hrun
    rcases hnext : (x.forgotten.scheduleNext env).run w₁ with ⟨e | z, w₂, t⟩
    · rw [hnext] at hrun
      cases hrun
    have hreturned := scheduleNext_returned (accepted_forgotten ha) hnext
    rw [hnext] at hrun
    have hend : ((⟨.ok z, w₂, t⟩ : Prog.Outcome World Event PyError Task).andThen fun t' => do
        t'.store
        pure t') = ⟨.ok z, w₂.putTask z, t⟩ := by
      simp [Prog.Outcome.andThen, Task.store, Prog.run_bind]
    rw [hend] at hrun
    cases hrun
    have htimeAfter : ∀ x', x.scheduleTime env w.now = .ok x' →
        ∀ s, TimeAfter env x w s ↔ x'.scheduledTime = some s := by
      intro x' htime s
      constructor
      · intro h
        obtain ⟨x'', htime', hs⟩ := h.2 hp
        cases htime.symm.trans htime'
        exact hs
      · exact fun hs => ⟨fun hpending => absurd hpending hp, fun _ => ⟨x', htime, hs⟩⟩
    cases hreturned with
    | disabled hdis =>
        have hdis' : x.enabled = false := hdis
        refine .inl ⟨fun h => ?_, hreg', fun _ => List.not_mem_nil, rfl, rfl, fun hen => ?_⟩
        · cases hdis'.symm.trans h.1
        · cases hdis'.symm.trans hen
    | late hen htime hpast =>
        obtain ⟨x', htime', rfl⟩ := htimes _ htime
        have hsame : x'.enabled = x.enabled := by
          rw [Task.scheduleTime_frame htime']
        refine .inl ⟨?_, hreg', fun _ => List.not_mem_nil, ?_, hsame, fun _ => htimeAfter x' htime'⟩
        · rintro ⟨-, -, x'', htime'', hfuture⟩
          cases htime'.symm.trans htime''
          rw [hnow', inThePast_forgotten, hfuture] at hpast
          cases hpast
        · exact (Rescheduling.same_of_scheduleTime htime').2.1
    | made hen htime hfuture hs =>
        obtain ⟨x', htime', rfl⟩ := htimes _ htime
        rw [hnow', inThePast_forgotten] at hfuture
        have hsame : x'.enabled = x.enabled := by
          rw [Task.scheduleTime_frame htime']
        refine .inr ⟨_, ⟨hen, hp, x', htime', hfuture⟩, ?_, fun n => ?_, ?_, ?_, hs, fun s' => ?_⟩
        · rw [hname]
          exact registry_zadd_congr hreg' x.queue .scheduled (x.nextName w) _
        · rw [hname]
          simp
        · exact (Rescheduling.same_of_scheduleTime htime').2.1
        · exact hsame.trans hen
        · have hs' : x'.scheduledTime = some _ := hs
          rw [htimeAfter x' htime', hs', Option.some_inj]
          exact eq_comm

/-- Every job but a new one is where it was. -/
theorem Kept.jobs_iff (h : Kept env x w y w' es) {log : List Event} :
    Reflected y (scheduledFor x.id (log ++ es)) w' ↔ UpToDate env x (scheduledFor x.id log) w := by
  have hmade : scheduledFor x.id (log ++ es) = scheduledFor x.id log := by
    ext n
    exact List.mem_append.trans (or_iff_left (h.quiet n))
  have hin : ∀ q k n, w'.inRegistry q k n ↔ w.inRegistry q k n := by
    intro q k n
    rw [World.inRegistry_iff, World.inRegistry_iff, h.registry]
  rw [hmade]
  constructor
  · intro hr
    refine ⟨fun hen n hn q => ?_, fun hen n hn q s hs _ => ?_, fun hc => absurd hc h.idle,
      fun hc => absurd hc h.idle⟩
    · have hout := hr.disabled (h.enabled.trans hen) n hn q
      rw [hin, hin] at hout
      exact hout
    · rw [← h.registry] at hs
      obtain ⟨hq, htime⟩ := hr.enabled (h.enabled.trans hen) n hn q s hs
      exact ⟨hq.trans h.queue, (h.time hen s).2 htime⟩
  · intro hu
    refine ⟨fun hen n hn q => ?_, fun hen n hn q s hs => ?_⟩
    · rw [hin, hin]
      exact hu.disabled (h.enabled.symm.trans hen) n hn q
    · have hen' := h.enabled.symm.trans hen
      rw [h.registry] at hs
      obtain ⟨hq, htime⟩ := hu.enabled hen' n hn q s hs fun hnew => h.idle hnew.1
      exact ⟨hq.trans h.queue.symm, (h.time hen' s).1 htime⟩

theorem Made.jobs_iff {s : Int} (h : Made env x w y w' es s) {log : List Event} :
    Reflected y (scheduledFor x.id (log ++ es)) w' ↔ UpToDate env x (scheduledFor x.id log) w := by
  have hen : x.enabled = true := h.creates.1
  have hmade : ∀ n, n ∈ scheduledFor x.id (log ++ es) ↔
      n ∈ scheduledFor x.id log ∨ n = x.nextName w :=
    fun n => List.mem_append.trans (or_congr_right (h.named n))
  have hscore : ∀ q n, (w'.registry q .scheduled).score n =
      if q = x.queue ∧ n = x.nextName w then some (Task.scoreOf env s) else (w.registry q .scheduled).score n := by
    intro q n
    rw [h.registry, World.score_zadd]
    simp
  constructor
  · intro hr
    refine ⟨fun hdis => ?_, fun _ n hn q s' hs hnot => ?_, fun _ q hin => ?_, fun _ s' hs' => ?_⟩
    · cases hen.symm.trans hdis
    · have hold : (w'.registry q .scheduled).score n = some s' := by
        rw [hscore, if_neg fun heq => hnot ⟨h.creates, heq⟩]
        exact hs
      obtain ⟨hq, htime⟩ := hr.enabled h.enabled n ((hmade n).2 (.inl hn)) q s' hold
      refine ⟨hq.trans h.queue, (h.time s').2 ?_⟩
      rw [h.scheduled] at htime
      exact (Option.some_inj.1 htime).symm
    · by_contra hq
      obtain ⟨s', hs⟩ := Option.isSome_iff_exists.1 hin
      have hold : (w'.registry q .scheduled).score (x.nextName w) = some s' := by
        rw [hscore, if_neg fun heq => hq heq.1]
        exact hs
      have hplace := (hr.enabled h.enabled _ ((hmade _).2 (.inr rfl)) q s' hold).1
      exact hq (hplace.trans h.queue)
    · have hnew : (w'.registry x.queue .scheduled).score (x.nextName w) = some (Task.scoreOf env s) := by
        rw [hscore, if_pos ⟨rfl, rfl⟩]
      have htime := (hr.enabled h.enabled _ ((hmade _).2 (.inr rfl)) _ _ hnew).2
      rw [h.scheduled] at htime
      rw [(h.time s').1 hs']
      exact (Option.some_inj.1 htime).symm
  · intro hu
    refine ⟨fun hdis => ?_, fun _ n hn q s' hs => ?_⟩
    · cases h.enabled.symm.trans hdis
    · rw [hscore] at hs
      by_cases hnew : q = x.queue ∧ n = x.nextName w
      · rw [if_pos hnew] at hs
        cases hs
        rw [hu.timed h.creates s ((h.time s).2 rfl)]
        exact ⟨hnew.1.trans h.queue.symm, h.scheduled⟩
      · rw [if_neg hnew] at hs
        have hold : n ∈ scheduledFor x.id log := by
          refine ((hmade n).1 hn).resolve_right fun hname => hnew ⟨?_, hname⟩
          rw [hname] at hs
          exact hu.fresh h.creates q (Option.isSome_iff_exists.2 ⟨s', hs⟩)
        obtain ⟨hq, htime⟩ := hu.enabled hen n hold q s' hs fun hnew' => hnew hnew'.2
        rw [(h.time s').1 htime]
        exact ⟨hq.trans h.queue.symm, h.scheduled⟩

end Saving

/-- After a save that returns, the jobs that `_schedule` has created for the task are where the saved row
says, exactly when they were so before for the object that is saved. -/
theorem reflected_iff {env : Env} {clean : Bool} {t x y : Task} {w w' : World} {log es : List Event}
    (hx : Proceeds env clean t w.now x) (hrun : (t.save env clean true).run w = ⟨.ok y, w', es⟩) :
    Reflected y (scheduledFor t.id (log ++ es)) w' ↔ UpToDate env x (scheduledFor t.id log) w := by
  have hid : x.id = t.id := hx.id
  rw [hx.run] at hrun
  rw [← hid]
  rcases saveCleaned_returned hx.accepted hrun with hkept | ⟨s, hmade⟩
  · exact hkept.jobs_iff
  · exact hmade.jobs_iff

/-! ## A sample -/

/-- A one-off task for the fifth second is saved. -/
def sampleSave : Prog.Outcome World Event PyError Task :=
  ((Sample.onceTask 5000000).save Sample.env true true).run (World.init 0)

def sampleRow : Task := (Sample.onceTask 5000000).withJob "q:7:19700101000000000000"

theorem sampleSave_val : sampleSave.val = .ok sampleRow := by
  decide +kernel

theorem sample_reflected :
    Reflected sampleRow (scheduledFor 7 ([] ++ sampleSave.trace)) sampleSave.state := by
  have hrun : ((Sample.onceTask 5000000).save Sample.env true true).run (World.init 0)
      = ⟨.ok sampleRow, sampleSave.state, sampleSave.trace⟩ := by
    rw [← sampleSave_val]
    rfl
  have hx : Proceeds Sample.env true (Sample.onceTask 5000000) 0 (Sample.onceTask 5000000) := rfl
  refine (@reflected_iff Sample.env true _ _ _ _ _ [] _ hx hrun).2 ⟨?_, ?_, ?_, fun _ _ _ => rfl⟩
  · rintro - n ⟨⟩
  · rintro - n ⟨⟩
  · rintro - q h
    cases h

/-- The row is edited and saved again. -/
def sampleEdit (x : Task) : Prog.Outcome World Event PyError Task :=
  (x.save Sample.env true true).run sampleSave.state

/-- The save of `x` is accepted, leaves `y`, and the jobs of the task are not where `y` says. -/
def Unreflected (x y : Task) : Prop :=
  (sampleEdit x).val = .ok y ∧
    ¬ Reflected y (scheduledFor 7 (sampleSave.trace ++ (sampleEdit x).trace)) (sampleEdit x).state

theorem sampleRow_scheduled (es : List Event) :
    "q:7:19700101000000000000" ∈ scheduledFor 7 (sampleSave.trace ++ es) := by
  have hin : Event.taskScheduled 7 "q:7:19700101000000000000" ∈ sampleSave.trace := by
    decide +kernel
  exact List.mem_append_left es hin

/-- The job stays scheduled when the task is disabled, stays at its old time when it is given another
one, and stays in its old queue, beside a new one, when it is moved. -/
theorem edits_not_reflected :
    Unreflected { sampleRow with enabled := false } { sampleRow with enabled := false } ∧
    Unreflected { sampleRow with scheduledTime := some 6000000 }
      { sampleRow with scheduledTime := some 6000000 } ∧
    Unreflected { sampleRow with queue := "s" }
      { sampleRow with queue := "s", jobName := some "s:7:19700101000000000000" } := by
  refine ⟨⟨by decide +kernel, fun h => ?_⟩, ⟨by decide +kernel, fun h => ?_⟩, by decide +kernel,
    fun h => ?_⟩
  · have hout := (h.disabled rfl _ (sampleRow_scheduled _) "q").1
    revert hout
    decide +kernel
  · have htime := (h.enabled rfl _ (sampleRow_scheduled _) "q" 5000000 (by decide +kernel)).2
    revert htime
    decide +kernel
  · have hqueue := (h.enabled rfl _ (sampleRow_scheduled _) "q" 5000000 (by decide +kernel)).1
    revert hqueue
    decide +kernel

end DailyScheduler.TaskEdit
