import DailyScheduler.Model.ImportExport
import DailyScheduler.Model.Sample
import DailyScheduler.Tasks.Inserting

set_option autoImplicit false

/-! # Exporting a task and importing it again

`to_dict` runs `_schedule_time`, and the import saves the new task: it validates it, schedules it,
and saves it once more for each argument. Whether the task comes back as it was depends on the
clock at the import.
-/

namespace DailyScheduler.Transfer

open AtomicProg

/-- The definition of the task `x` is that of the task `t`. -/
structure SameDefinition (t x : Task) : Prop where
  name : x.name = t.name
  taskType : x.taskType = t.taskType
  callable : x.callable = t.callable
  enabled : x.enabled = t.enabled
  queue : x.queue = t.queue
  atFront : x.atFront = t.atFront
  timeout : x.timeout = t.timeout
  resultTtl : x.resultTtl = t.resultTtl
  interval : x.interval = t.interval
  intervalUnit : x.intervalUnit = t.intervalUnit
  repeats : x.repeat = t.repeat
  cronString : x.cronString = t.cronString

/-- `create_task_from_dict` returns a new task, whose row and arguments are those of the task `t`
and of the dictionary. -/
def Restores (env : Env) (t : Task) (d : TaskDict) (update : Bool) (w : World) : Prop :=
  ∃ x, ((d.createTask env update).run w).val = .ok (some x) ∧ w.tasks.find? x.id = none ∧
    ∃ r, ((d.createTask env update).exec w).tasks.find? x.id = some r ∧ SameDefinition t r ∧
      ((d.createTask env update).exec w).taskArgs x.id = d.callableArgs ∧
      ((d.createTask env update).exec w).taskKwargs x.id = d.callableKwargs ∧
      (t.taskType ≠ .cron → r.scheduledTime = d.scheduledTime)

/-- The task, stored in `w₀`, is exported there with its arguments and restored in `w`. -/
def RoundTrips (env : Env) (t : Task) (update : Bool) (w₀ w : World) : Prop :=
  ∃ d, ((t.toDict env).run w₀).val = .ok d ∧ d.callableArgs = w₀.taskArgs t.id ∧
    d.callableKwargs = w₀.taskKwargs t.id ∧ Restores env t d update w

/-- The time of a task as it is exported: the next time of the cron string, or the time of the
task, moved by whole intervals when it is late and has the repeats for them. -/
def exportedTime (env : Env) (t : Task) (now : Int) : Option Int :=
  match t.taskType with
  | .once => t.scheduledTime
  | .cron => t.cronString.bind fun c => (env.croniter c).bind (· now)
  | .repeatable =>
      t.scheduledTime.bind fun s =>
        if now ≤ s then some s
        else match t.intervalSeconds with
          | .error _ => none
          | .ok i =>
              if i = 0 then none
              else if ∀ r ∈ t.repeat, Task.gap now s (secs i) ≤ (r : Int) then
                some (s + secs i * Task.gap now s (secs i))
              else some s

/-- The object that is created for the task `t`. -/
def imported (t : Task) (id : Nat) (s : Int) : Task :=
  { t with id := id, jobName := none, scheduledTime := some s }

/-- The import at `w` of a task exported with the time `s` and the arguments `p` succeeds without
changes: a one-off task is not late; the next job of a task that is not late can be made; and a
task that stays without a job has arguments whose values can be computed. A repeatable task that
is late must have fewer repeats left than intervals have passed. -/
def Restorable (env : Env) (t : Task) (s : Int) (p : Arguments) (w : World) : Prop :=
  (t.taskType = .once → w.now ≤ s) ∧
  (t.enabled = false → valuesError env p = none) ∧
  (t.enabled = true →
    match t.taskType with
    | .cron => (exportedTime env t w.now).isSome = true ∧
        (imported t w.tasks.nextId s).JobFree env w
    | .once => (imported t w.tasks.nextId s).JobFree env w
    | .repeatable =>
        (w.now ≤ s ∧ (imported t w.tasks.nextId s).JobFree env w) ∨
        (s < w.now ∧ valuesError env p = none ∧ ∃ i r, t.intervalSeconds = .ok i ∧ i ≠ 0 ∧
          t.repeat = some r ∧ (r : Int) < Task.gap w.now s (secs i)))

/-! ## Export -/

section Export

variable {env : Env} {t : Task} {w : World}

theorem val_toDict : ((t.toDict env).run w).val = match t.scheduleTime env w.now with
    | .error x => .error x
    | .ok t' => (match t'.scheduledTime with
      | none => .error (.attributeError "isoformat")
      | some s => .ok (t.dict (w.taskArgs t.id) (w.taskKwargs t.id) (some s))) := by
  unfold Task.toDict
  simp only [Prog.run_bind, Prog.run_read, Prog.Outcome.andThen_ok, run_utcnow]
  cases t.scheduleTime env w.now with
  | error x => rfl
  | ok t' =>
      dsimp only
      cases t'.scheduledTime <;> rfl

/-- `to_dict` computes the time with `_schedule_time`. -/
theorem scheduledTime_scheduleTime (now : Int) :
    (t.scheduleTime env now).toOption.bind Task.scheduledTime = exportedTime env t now := by
  unfold exportedTime
  cases hty : t.taskType with
  | once =>
      rw [Task.scheduleTime_once hty]
      rfl
  | cron =>
      cases hc : t.cronString with
      | none =>
          unfold Task.scheduleTime
          rw [hty, hc]
          rfl
      | some c =>
          rw [Task.scheduleTime_cron hty hc]
          dsimp only [Option.bind_some]
          cases (env.croniter c).bind (· now) <;> rfl
  | repeatable =>
      cases hs : t.scheduledTime with
      | none =>
          unfold Task.scheduleTime
          rw [hty, hs]
          rfl
      | some s =>
          dsimp only [Option.bind_some]
          by_cases hle : now ≤ s
          · rw [Task.scheduleTime_repeatable hty hs hle, if_pos hle]
            exact hs
          rw [if_neg hle]
          have hlate : s < now := not_le.1 hle
          cases hi : t.intervalSeconds with
          | error x =>
              unfold Task.scheduleTime
              rw [hty, hs, hi]
              dsimp only
              rw [if_neg hle]
              rfl
          | ok i =>
              rw [Task.scheduleTime_repeatable_late hty hs hlate hi]
              dsimp only
              by_cases hzero : i = 0
              · rw [if_pos hzero, if_pos hzero]
                rfl
              rw [if_neg hzero, if_neg hzero]
              by_cases henough : ∀ r ∈ t.repeat, Task.gap now s (secs i) ≤ (r : Int)
              · rw [if_pos henough, Task.advanceSchedule_of_enough fun r hr => henough r hr]
                rfl
              · rw [if_neg henough]
                obtain ⟨r, hr, hfew⟩ : ∃ r ∈ t.repeat, (r : Int) < Task.gap now s (secs i) := by
                  simpa using henough
                rw [Task.advanceSchedule_of_few hr hfew]
                exact hs

theorem toDict_eq_ok {d : TaskDict} : ((t.toDict env).run w).val = .ok d ↔
    ∃ s, exportedTime env t w.now = some s ∧
      d = t.dict (w.taskArgs t.id) (w.taskKwargs t.id) (some s) := by
  rw [val_toDict, ← scheduledTime_scheduleTime]
  cases t.scheduleTime env w.now with
  | error x => simp [Except.toOption]
  | ok t' =>
      dsimp only [Except.toOption, Option.bind_some]
      cases t'.scheduledTime with
      | none => simp
      | some s => simp [eq_comm]

end Export

/-! ## Creating the task -/

section Creating

variable {env : Env} {t x' : Task} {w : World} {s : Int}

/-- The exported task is accepted, no task of the database has its name, and no arguments are
stored for the next primary key. -/
structure Ready (env : Env) (t : Task) (w : World) : Prop where
  accepted : Accepted env t
  unknown : w.tasks.withName t.name = none
  noArguments : argumentsOf w.tasks.nextId w = ([], [])

theorem run_create (args : List TaskArg) (kwargs : List TaskKwarg) :
    (((t.dict args kwargs (some s)).toTask t.taskType).create env).run w
      = ((imported t w.tasks.nextId s).save env true true).run w := by
  unfold Task.create
  rw [Prog.run_bind, Prog.run_read, Prog.Outcome.andThen_ok]
  rfl

theorem clean_imported (h : Ready env t w) (honce : t.taskType = .once → w.now ≤ s) :
    (imported t w.tasks.nextId s).clean env w.now = .ok (imported t w.tasks.nextId s) :=
  clean_eq_ok h.accepted.fields.1 rfl honce

/-- A task that gets no job is created as it is. -/
theorem create_of_idle (h : Ready env t w) (honce : t.taskType = .once → w.now ≤ s)
    (hi : Idle env (imported t w.tasks.nextId s) w) :
    ∃ w', ((imported t w.tasks.nextId s).save env true true).run w
        = ⟨.ok (imported t w.tasks.nextId s), w', []⟩ ∧
      Settled env (imported t w.tasks.nextId s) w' ∧
      Idle env (imported t w.tasks.nextId s) w' ∧
      argumentsOf w.tasks.nextId w' = ([], []) := by
  have hclean := clean_imported (s := s) h honce
  have hargs : argumentsOf (imported t w.tasks.nextId s).id w = ([], []) := h.noArguments
  refine ⟨storedTwice (imported t w.tasks.nextId s) w, ?_, ⟨find?_storedTwice, hclean, ?_⟩,
    hi.of_eq rfl, h.noArguments⟩
  · rw [Task.run_save_clean, hclean]
    dsimp only
    rw [run_saveCleaned_of_idle hi, hargs]
    rfl
  · exact isAsync_of_fields (t := t) h.accepted.fields.1

/-- A task that gets a job is created with the time and the repeats that `_schedule_time` gave it,
when the job is accepted; otherwise the import raises. -/
theorem create_of_next (h : Ready env t w) (honce : t.taskType = .once → w.now ≤ s)
    (hen : t.enabled = true)
    (htime : (imported t w.tasks.nextId s).scheduleTime env w.now = .ok x')
    (hpast : x'.inThePast w.now = .ok false) {s' : Int} (hs' : x'.scheduledTime = some s')
    (hfields : x'.cleanFields env = .ok ()) (honce' : t.taskType = .once → w.now ≤ s') :
    ((imported t w.tasks.nextId s).JobFree env w →
      ∃ n w' es, ((imported t w.tasks.nextId s).save env true true).run w
          = ⟨.ok (x'.withJob n), w', es⟩ ∧ Settled env (x'.withJob n) w' ∧
        (x'.withJob n).Pending w' ∧ argumentsOf w.tasks.nextId w' = ([], [])) ∧
    (¬ (imported t w.tasks.nextId s).JobFree env w →
      ∃ e, (((imported t w.tasks.nextId s).save env true true).run w).val = .error e) := by
  have hclean := clean_imported (s := s) h honce
  obtain ⟨isAsync, hq⟩ := isAsync_of_fields hfields
  obtain ⟨m, hm⟩ := jobMeta_of_fields hfields
  have hframe := Task.scheduleTime_frame htime
  have hnext : ((imported t w.tasks.nextId s).scheduleNext env).run
      (w.putTask (imported t w.tasks.nextId s))
        = (x'.createJob env).run (w.putTask (imported t w.tasks.nextId s)) := by
    have htime' : (imported t w.tasks.nextId s).scheduleTime env
        (w.putTask (imported t w.tasks.nextId s)).now = .ok x' := htime
    have hpast' : x'.inThePast (w.putTask (imported t w.tasks.nextId s)).now = .ok false := hpast
    rw [Task.run_scheduleNext (by exact hen) htime', hpast']
  have hfree : x'.JobFree env (w.putTask (imported t w.tasks.nextId s))
      ↔ (imported t w.tasks.nextId s).JobFree env w := by
    rw [hframe]
    exact Iff.rfl
  have hrun : ((imported t w.tasks.nextId s).save env true true).run w
      = ((x'.createJob env).run (w.putTask (imported t w.tasks.nextId s))).andThen (fun t' => do
        t'.store
        pure t') := by
    rw [Task.run_save_clean, hclean]
    dsimp only
    rw [Task.run_saveCleaned, Task.run_schedule_of_none rfl, hnext]
  rw [hrun]
  constructor
  · intro hjob
    obtain ⟨job, -, -, hcreate⟩ := Task.run_createJob hq hm hs' (hfree.2 hjob)
    rw [hcreate]
    let n := x'.nextName (w.putTask (imported t w.tasks.nextId s))
    let w₁ := ((w.putTask (imported t w.tasks.nextId s)).saveJob job false).saveJob job.saved false
    have hin : (w₁.zadd x'.queue .scheduled n (Task.scoreOf env s')).inRegistry x'.queue
        .scheduled n := by
      rw [World.inRegistry_zadd]
      exact Or.inl ⟨rfl, rfl, rfl⟩
    refine ⟨n, (w₁.zadd x'.queue .scheduled n (Task.scoreOf env s')).putTask (x'.withJob n), _, rfl,
      ⟨?_, ?_, ⟨isAsync, hq⟩⟩, ⟨n, rfl, Or.inl hin⟩, h.noArguments⟩
    · exact (TaskTable.find?_put _ _ _).trans (if_pos rfl)
    · refine clean_eq_ok (s := s') hfields hs' fun hty => honce' ?_
      have htype : x'.taskType = t.taskType := by
        rw [hframe]
        rfl
      rw [← htype]
      exact hty
  · intro hjob
    obtain ⟨e, he⟩ := Task.run_createJob_error hq hm hs' fun hx => hjob (hfree.1 hx)
    rw [he]
    exact ⟨e, rfl⟩

end Creating

/-! ## Importing -/

section Importing

variable {env : Env} {t x : Task} {w : World} {s : Int} {args : List TaskArg}
  {kwargs : List TaskKwarg} {update : Bool}

theorem run_insert (t : Task) (args : List TaskArg) (kwargs : List TaskKwarg) (s : Int)
    (w : World) : ((t.dict args kwargs (some s)).insert env t.taskType).run w
      = (((imported t w.tasks.nextId s).save env true true).run w).andThen
          fun x => insertArguments env x (args, kwargs) := by
  unfold TaskDict.insert
  rw [Prog.run_bind, run_create]
  rfl

theorem run_createTask (h : Ready env t w) :
    ((t.dict args kwargs (some s)).createTask env update).run w
      = (((t.dict args kwargs (some s)).insert env t.taskType).run w).andThen
          fun x => pure (some x) := by
  have hunknown : w.tasks.withName (t.dict args kwargs (some s)).name = none := h.unknown
  have htype : getTaskType (t.dict args kwargs (some s)).model = .ok t.taskType :=
    getTaskType_value _
  unfold TaskDict.createTask
  rw [Prog.run_bind, Prog.run_read, Prog.Outcome.andThen_ok, htype, hunknown]
  dsimp only
  rw [Prog.run_bind]
  rfl

/-- Where the import creates the row `x` and stores the arguments, it restores the task if `x` has
its definition and time. -/
theorem restores_iff_of_ok (h : Ready env t w) {w₁ : World} {es : List Event}
    (hrun : ((imported t w.tasks.nextId s).save env true true).run w = ⟨.ok x, w₁, es⟩)
    (hid : x.id = w.tasks.nextId) (hs : Settled env x w₁)
    (hnil : argumentsOf w.tasks.nextId w₁ = ([], []))
    (hmode : x.Pending w₁ ∨ (Idle env x w₁ ∧ valuesError env (args, kwargs) = none)) :
    Restores env t (t.dict args kwargs (some s)) update w ↔
      SameDefinition t x ∧ (t.taskType ≠ .cron → x.scheduledTime = some s) := by
  rw [← hid] at hnil
  obtain ⟨w₂, hargs, hset, -, hstored⟩ := insertArguments_ok hs (p := (args, kwargs))
    (by rw [hnil]; rfl) (by rw [hnil]; exact hmode)
  have hrow := hset.row
  rw [hnil] at hstored
  have hall : ((t.dict args kwargs (some s)).createTask env update).run w
      = ⟨.ok (some x), w₂, es⟩ := by
    rw [run_createTask h, run_insert, hrun, Prog.Outcome.andThen_ok, hargs]
    simp
  have hval : (((t.dict args kwargs (some s)).createTask env update).run w).val = .ok (some x) := by
    rw [hall]
  have hexec := Prog.exec_eq_of_run hall
  have hargs₁ : w₂.taskArgs x.id = args := congrArg Prod.fst hstored
  have hkwargs₁ : w₂.taskKwargs x.id = kwargs := congrArg Prod.snd hstored
  unfold Restores
  rw [hexec]
  constructor
  · rintro ⟨x', hx', -, r, hr, hsame, -, -, htime⟩
    have hx : x = x' := by
      rw [hval] at hx'
      exact Option.some.inj (Except.ok.inj hx')
    subst hx
    rw [hrow] at hr
    cases hr
    exact ⟨hsame, htime⟩
  · rintro ⟨hsame, htime⟩
    refine ⟨x, hval, ?_, x, hrow, hsame, hargs₁, hkwargs₁, htime⟩
    rw [hid]
    exact TaskTable.find?_nextId _

theorem not_restores_of_val (h : Ready env t w) {e : PyError}
    (hval : (((t.dict args kwargs (some s)).insert env t.taskType).run w).val = .error e) :
    ¬ Restores env t (t.dict args kwargs (some s)) update w := by
  rintro ⟨x, hx, -⟩
  rw [run_createTask h] at hx
  unfold Prog.Outcome.andThen at hx
  rw [hval] at hx
  cases hx

theorem not_restores_of_create (h : Ready env t w) {e : PyError}
    (hval : (((imported t w.tasks.nextId s).save env true true).run w).val = .error e) :
    ¬ Restores env t (t.dict args kwargs (some s)) update w := by
  refine not_restores_of_val h (e := e) ?_
  rw [run_insert]
  unfold Prog.Outcome.andThen
  rw [hval]

end Importing

/-! ## The cases -/

section Cases

variable {env : Env} {t : Task} {w : World} {s : Int} {args : List TaskArg}
  {kwargs : List TaskKwarg} {update : Bool}

theorem sameDefinition_imported (id : Nat) (n : JobName) :
    SameDefinition t (imported t id s) ∧ SameDefinition t ((imported t id s).withJob n) :=
  ⟨⟨rfl, rfl, rfl, rfl, rfl, rfl, rfl, rfl, rfl, rfl, rfl, rfl⟩,
    ⟨rfl, rfl, rfl, rfl, rfl, rfl, rfl, rfl, rfl, rfl, rfl, rfl⟩⟩

/-- A task that gets no job is restored if the values of its arguments can be computed. -/
theorem restores_of_idle (h : Ready env t w) (honce : t.taskType = .once → w.now ≤ s)
    (hi : Idle env (imported t w.tasks.nextId s) w) :
    Restores env t (t.dict args kwargs (some s)) update w ↔
      valuesError env (args, kwargs) = none := by
  obtain ⟨w₁, hrun, hs, hi₁, hnil⟩ := create_of_idle h honce hi
  by_cases hv : valuesError env (args, kwargs) = none
  · rw [restores_iff_of_ok h hrun rfl hs hnil (Or.inr ⟨hi₁, hv⟩)]
    exact ⟨fun _ => hv, fun _ => ⟨(sameDefinition_imported _ "").1, fun _ => rfl⟩⟩
  · obtain ⟨e, w₂, he, -⟩ := insertArguments_error hs hi₁ (p := (args, kwargs))
      (by rw [show argumentsOf (imported t w.tasks.nextId s).id w₁ = ([], []) from hnil]; exact hv)
    refine ⟨fun hr => ?_, fun h => absurd h hv⟩
    refine absurd hr (not_restores_of_val h (e := e) ?_)
    rw [run_insert, hrun, Prog.Outcome.andThen_ok, he]

/-- A task that gets a job is restored if the job is accepted and the time and the repeats are as
they were. -/
theorem restores_of_next (h : Ready env t w) (honce : t.taskType = .once → w.now ≤ s)
    (hen : t.enabled = true) {x' : Task}
    (htime : (imported t w.tasks.nextId s).scheduleTime env w.now = .ok x')
    (hpast : x'.inThePast w.now = .ok false) {s' : Int} (hs' : x'.scheduledTime = some s')
    (hfields : x'.cleanFields env = .ok ()) (honce' : t.taskType = .once → w.now ≤ s') :
    Restores env t (t.dict args kwargs (some s)) update w ↔
      (imported t w.tasks.nextId s).JobFree env w ∧ x'.repeat = t.repeat ∧
        (t.taskType ≠ .cron → s' = s) := by
  obtain ⟨hfree, hnot⟩ := create_of_next h honce hen htime hpast hs' hfields honce'
  have hframe := Task.scheduleTime_frame htime
  by_cases hjob : (imported t w.tasks.nextId s).JobFree env w
  · obtain ⟨n, w₁, es, hrun, hset, hp, hnil⟩ := hfree hjob
    have hid : (x'.withJob n).id = w.tasks.nextId := by
      rw [hframe]
      rfl
    rw [restores_iff_of_ok h hrun hid hset hnil (Or.inl hp)]
    constructor
    · rintro ⟨hsame, hs⟩
      refine ⟨hjob, hsame.repeats, fun hcron => ?_⟩
      have hboth : x'.scheduledTime = some s := hs hcron
      rw [hs'] at hboth
      exact Option.some.inj hboth
    · rintro ⟨-, hrepeat, hs⟩
      constructor
      · rw [hframe]
        exact ⟨rfl, rfl, rfl, rfl, rfl, rfl, rfl, rfl, rfl, rfl, hrepeat, rfl⟩
      · intro hcron
        show x'.scheduledTime = some s
        rw [hs', hs hcron]
  · obtain ⟨e, he⟩ := hnot hjob
    exact ⟨fun hr => absurd hr (not_restores_of_create h he), fun hr => absurd hr.1 hjob⟩

/-- A task for which no time can be computed is not restored. -/
theorem not_restores_of_time (h : Ready env t w) (honce : t.taskType = .once → w.now ≤ s)
    (hen : t.enabled = true) {e : PyError}
    (htime : (imported t w.tasks.nextId s).scheduleTime env w.now = .error e) :
    ¬ Restores env t (t.dict args kwargs (some s)) update w := by
  refine not_restores_of_create h (e := e) ?_
  have htime' : (imported t w.tasks.nextId s).scheduleTime env
      (w.putTask (imported t w.tasks.nextId s)).now = .error e := htime
  rw [Task.run_save_clean, clean_imported h honce]
  dsimp only
  rw [Task.run_saveCleaned, Task.run_schedule_of_none rfl,
    Task.run_scheduleNext_error (by exact hen) htime']
  rfl

/-- A one-off task that is late is rejected. -/
theorem not_restores_of_late (h : Ready env t w) (honce : t.taskType = .once) (hlate : s < w.now) :
    ¬ Restores env t (t.dict args kwargs (some s)) update w := by
  refine not_restores_of_create h (e := .validationError "scheduled_time") ?_
  have hclean : (imported t w.tasks.nextId s).clean env w.now
      = .error (.validationError "scheduled_time") :=
    clean_late h.accepted.fields.1 rfl honce hlate
  rw [Task.run_save_clean, hclean]

/-- A repeatable task that is late and has the repeats to catch up is not restored: its time
moves. -/
theorem not_restores_of_advance (h : Ready env t w) (hen : t.enabled = true)
    (hty : t.taskType = .repeatable) (hlate : s < w.now) {i : Int}
    (hi : t.intervalSeconds = .ok i) (hne : i ≠ 0)
    (hrepeat : ∀ r, t.repeat = some r → Task.gap w.now s (secs i) ≤ r) :
    ¬ Restores env t (t.dict args kwargs (some s)) update w := by
  have hstep : 0 < secs i := by
    have hnonneg := Task.intervalSeconds_nonneg hi
    unfold secs
    omega
  obtain ⟨hone, hreach⟩ := Task.gap_spec hstep hlate
  have hpos : 0 < secs i * Task.gap w.now s (secs i) := Int.mul_pos hstep (by omega)
  have hdefer : t.taskType = .once → ∀ d, w.now ≤ d := by
    intro ho
    rw [hty] at ho
    cases ho
  have htime : (imported t w.tasks.nextId s).scheduleTime env w.now = _ :=
    Task.scheduleTime_repeatable_late hty rfl hlate hi
  rw [if_neg hne] at htime
  rw [Task.advanceSchedule_of_enough (t := imported t w.tasks.nextId s) hrepeat] at htime
  let s' := s + secs i * Task.gap w.now s (secs i)
  have hpast : ({ imported t w.tasks.nextId s with
      scheduledTime := some s'
      «repeat» := t.repeat.map fun r : Nat => ((r : Int) - Task.gap w.now s (secs i)).toNat }
      : Task).inThePast w.now = .ok (decide (s' < w.now)) :=
    Task.inThePast_of_some
      (by rw [show (imported t w.tasks.nextId s).taskType = .repeatable from hty]; decide) rfl
  rw [decide_eq_false (not_lt.2 hreach)] at hpast
  -- the remaining repeats are accepted, and the new time is in the future
  have hfields : ({ imported t w.tasks.nextId s with
      scheduledTime := some s'
      «repeat» := t.repeat.map fun r : Nat => ((r : Int) - Task.gap w.now s (secs i)).toNat }
      : Task).cleanFields env = .ok () := by
    refine fields_of_fewer ?_ h.accepted.fields.1
    cases hr : t.repeat with
    | none => exact Nat.zero_le _
    | some r =>
        show ((r : Int) - Task.gap w.now s (secs i)).toNat ≤ t.repeat.getD 0
        rw [hr, Option.getD_some]
        omega
  intro hrestores
  have hres := (restores_of_next h (fun ho => hdefer ho s) hen htime hpast rfl hfields
    fun ho => hdefer ho _).1 hrestores
  have hsame : s' = s := hres.2.2 (by rw [hty]; decide)
  omega

/-- An enabled one-off task in time. -/
theorem restores_once (h : Ready env t w) (hen : t.enabled = true) (hty : t.taskType = .once)
    (hle : w.now ≤ s) : Restores env t (t.dict args kwargs (some s)) update w ↔
      (imported t w.tasks.nextId s).JobFree env w := by
  have hpast : (imported t w.tasks.nextId s).inThePast w.now = .ok (decide (s < w.now)) :=
    Task.inThePast_of_some (by rw [show (imported t w.tasks.nextId s).taskType = .once from hty]; decide) rfl
  rw [decide_eq_false (not_lt.2 hle)] at hpast
  rw [restores_of_next h (fun _ => hle) hen (Task.scheduleTime_once hty) hpast rfl
    h.accepted.fields.1 fun _ => hle]
  exact ⟨fun hr => hr.1, fun hr => ⟨hr, rfl, fun _ => rfl⟩⟩

/-- An enabled cron task. -/
theorem restores_cron (h : Ready env t w) (hen : t.enabled = true) (hty : t.taskType = .cron) :
    Restores env t (t.dict args kwargs (some s)) update w ↔
      (exportedTime env t w.now).isSome = true ∧
        (imported t w.tasks.nextId s).JobFree env w := by
  have hfields := h.accepted.fields.1
  obtain ⟨c, hc⟩ : ∃ c, t.cronString = some c := by
    have hcron := (cleanFields_eq_ok.1 hfields).2.2.1 hty
    unfold Task.cleanCronString at hcron
    cases hc : t.cronString with
    | none =>
        rw [hc] at hcron
        cases hcron
    | some c => exact ⟨c, rfl⟩
  have hdefer : t.taskType = .once → ∀ d, w.now ≤ d := by
    intro ho
    rw [hty] at ho
    cases ho
  have hown : exportedTime env t w.now = (env.croniter c).bind (· w.now) := by
    unfold exportedTime
    rw [hty, hc]
    rfl
  have htime : (imported t w.tasks.nextId s).scheduleTime env w.now = _ :=
    Task.scheduleTime_cron hty hc
  rw [hown]
  cases hd : (env.croniter c).bind (· w.now) with
  | none =>
      rw [hd] at htime
      refine ⟨fun hr => absurd hr ?_, fun hr => by cases hr.1⟩
      exact not_restores_of_time h (fun ho => hdefer ho s) hen htime
  | some d =>
      rw [hd] at htime
      rw [restores_of_next h (fun ho => hdefer ho s) hen htime (Task.inThePast_of_cron hty) rfl
        hfields fun ho => hdefer ho d]
      exact ⟨fun hr => ⟨rfl, hr.1⟩, fun hr => ⟨hr.2, rfl, fun hnot => absurd hty hnot⟩⟩

/-- An enabled repeatable task. -/
theorem restores_repeatable (h : Ready env t w) (hen : t.enabled = true)
    (hty : t.taskType = .repeatable) : Restores env t (t.dict args kwargs (some s)) update w ↔
      (w.now ≤ s ∧ (imported t w.tasks.nextId s).JobFree env w) ∨
      (s < w.now ∧ valuesError env (args, kwargs) = none ∧ ∃ i r, t.intervalSeconds = .ok i ∧
        i ≠ 0 ∧ t.repeat = some r ∧ (r : Int) < Task.gap w.now s (secs i)) := by
  have hfields := h.accepted.fields.1
  have hdefer : t.taskType = .once → ∀ d, w.now ≤ d := by
    intro ho
    rw [hty] at ho
    cases ho
  have hpast : (imported t w.tasks.nextId s).inThePast w.now = .ok (decide (s < w.now)) :=
    Task.inThePast_of_some (by rw [show (imported t w.tasks.nextId s).taskType = .repeatable from hty]; decide) rfl
  obtain ⟨i, hi⟩ := interval_of_fields hfields hty
  rcases le_or_gt w.now s with hle | hlate
  · -- in time: the new task is scheduled as it is
    rw [decide_eq_false (not_lt.2 hle)] at hpast
    rw [restores_of_next h (fun _ => hle) hen (Task.scheduleTime_repeatable hty rfl hle) hpast rfl
      hfields fun _ => hle]
    constructor
    · exact fun hr => Or.inl ⟨hle, hr.1⟩
    · rintro (⟨-, hr⟩ | ⟨hlt, -⟩)
      · exact ⟨hr, rfl, fun _ => rfl⟩
      · exact absurd hlt (not_lt.2 hle)
  · rw [decide_eq_true hlate] at hpast
    have htime : (imported t w.tasks.nextId s).scheduleTime env w.now = _ :=
      Task.scheduleTime_repeatable_late hty rfl hlate hi
    have hiff : ((w.now ≤ s ∧ (imported t w.tasks.nextId s).JobFree env w) ∨
        (s < w.now ∧ valuesError env (args, kwargs) = none ∧ ∃ i r, t.intervalSeconds = .ok i ∧
          i ≠ 0 ∧ t.repeat = some r ∧ (r : Int) < Task.gap w.now s (secs i))) ↔
        (valuesError env (args, kwargs) = none ∧ i ≠ 0 ∧ ∃ r : Nat, t.repeat = some r ∧
          (r : Int) < Task.gap w.now s (secs i)) := by
      constructor
      · rintro (⟨hle, -⟩ | ⟨-, hv, i', r, hi', hne, hr, hfew⟩)
        · exact absurd hlate (not_lt.2 hle)
        · rw [hi] at hi'
          cases hi'
          exact ⟨hv, hne, r, hr, hfew⟩
      · rintro ⟨hv, hne, r, hr, hfew⟩
        exact Or.inr ⟨hlate, hv, i, r, hi, hne, hr, hfew⟩
    rw [hiff]
    by_cases hne : i = 0
    · rw [if_pos hne] at htime
      refine ⟨fun hr => absurd hr ?_, fun hr => absurd hne hr.2.1⟩
      exact not_restores_of_time h (fun ho => hdefer ho s) hen htime
    · rw [if_neg hne] at htime
      by_cases hfew : ∃ r : Nat, t.repeat = some r ∧ (r : Int) < Task.gap w.now s (secs i)
      · -- too few repeats to catch up: the new task gets no job
        obtain ⟨r, hr, hlt⟩ := hfew
        rw [Task.advanceSchedule_of_few (by exact hr) hlt] at htime
        rw [restores_of_idle h (fun ho => hdefer ho s) ⟨rfl, Or.inr ⟨hen, htime, hpast⟩⟩]
        exact ⟨fun hv => ⟨hv, hne, r, hr, hlt⟩, fun hv => hv.1⟩
      · refine ⟨fun hr => absurd hr ?_, fun hr => absurd hr.2.2 hfew⟩
        refine not_restores_of_advance h hen hty hlate hi hne fun r hr => ?_
        by_contra hlt
        exact hfew ⟨r, hr, not_le.1 hlt⟩

end Cases

/-- For the dictionary of an accepted task, in a database without a task of its name,
`create_task_from_dict` restores the task exactly under the condition `Restorable`. -/
theorem restores_iff {env : Env} {t : Task} {w : World} {s : Int} {args : List TaskArg}
    {kwargs : List TaskKwarg} {update : Bool} (h : Ready env t w) :
    Restores env t (t.dict args kwargs (some s)) update w ↔ Restorable env t s (args, kwargs) w := by
  by_cases honce : t.taskType = .once → w.now ≤ s
  swap
  · -- the one-off task that is late
    obtain ⟨hty, hlate⟩ := Classical.not_imp.1 honce
    exact ⟨fun hr => absurd hr (not_restores_of_late h hty (not_le.1 hlate)),
      fun hr => absurd hr.1 honce⟩
  unfold Restorable
  cases hen : t.enabled with
  | false =>
      rw [restores_of_idle h honce ⟨rfl, Or.inl hen⟩]
      exact ⟨fun hv => ⟨honce, fun _ => hv, fun ht => (by cases ht)⟩, fun hr => hr.2.1 rfl⟩
  | true =>
      have hreduce : ∀ P : Prop, ((t.taskType = .once → w.now ≤ s) ∧
          ((true : Bool) = false → valuesError env (args, kwargs) = none) ∧
          ((true : Bool) = true → P)) ↔ P :=
        fun P => ⟨fun hr => hr.2.2 rfl, fun hp => ⟨honce, fun hf => (by cases hf), fun _ => hp⟩⟩
      rw [hreduce]
      cases hty : t.taskType with
      | cron => exact restores_cron h hen hty
      | once => exact restores_once h hen hty (honce hty)
      | repeatable => exact restores_repeatable h hen hty

/-- A task that is stored and accepted comes back from its export as it was exactly when its time
can be exported and the import is made under the condition `Restorable`. -/
theorem round_trips_iff {env : Env} {t : Task} {update : Bool} {w₀ w : World}
    (h : Ready env t w) : RoundTrips env t update w₀ w ↔
      ∃ s, exportedTime env t w₀.now = some s ∧ Restorable env t s (argumentsOf t.id w₀) w := by
  constructor
  · rintro ⟨d, hd, -, -, hrestores⟩
    obtain ⟨s, hs, rfl⟩ := toDict_eq_ok.1 hd
    exact ⟨s, hs, (restores_iff h).1 hrestores⟩
  · rintro ⟨s, hs, hrestorable⟩
    exact ⟨_, toDict_eq_ok.2 ⟨s, hs, rfl⟩, rfl, rfl, (restores_iff h).2 hrestorable⟩

/-- A one-off task at the time `s`. -/
abbrev sampleTask (s : Int) : Task := Sample.onceTask s

theorem ready_sampleTask (s now : Int) : Ready Sample.env (sampleTask s) (World.init now) where
  accepted := ⟨s, clean_eq_ok (s := s) rfl rfl fun _ => le_refl s⟩
  unknown := rfl
  noArguments := rfl

/-- A one-off task that is not late comes back. -/
theorem sample_round_trips :
    RoundTrips Sample.env (sampleTask 5) false ((World.init 1).putTask (sampleTask 5))
      (World.init 2) := by
  refine (round_trips_iff (ready_sampleTask 5 2)).2 ⟨5, rfl, fun _ => by decide, ?_, fun _ => ?_⟩
  · intro hdis
    cases hdis
  · exact ⟨by decide, rfl⟩

/-- A one-off task that has run does not come back. -/
theorem not_every_round_trips : ¬ ∀ (env : Env) (t : Task) (update : Bool) (w₀ w : World),
    w₀.tasks.find? t.id = some t → Ready env t w → RoundTrips env t update w₀ w := by
  intro hall
  have h := hall Sample.env (sampleTask 5) false ((World.init 6).putTask (sampleTask 5))
    (World.init 6) rfl (ready_sampleTask 5 6)
  obtain ⟨d, hd, -, -, hrestores⟩ := h
  obtain ⟨s, hs, rfl⟩ := toDict_eq_ok.1 hd
  have htime : s = 5 := (Option.some.inj hs).symm
  refine not_restores_of_late (ready_sampleTask 5 6) rfl ?_ hrestores
  rw [htime]
  decide

end DailyScheduler.Transfer
