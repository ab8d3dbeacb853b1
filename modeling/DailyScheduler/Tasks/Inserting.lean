import DailyScheduler.Model.ImportExport
import DailyScheduler.Tasks.Save

set_option autoImplicit false

/-! # Creating a task with its arguments

The import creates a task through `save`, which validates and schedules it, and saves it once more
for each argument. What such a series of saves does, and when one of them raises, is worked out here
for every task that `clean` accepts.
-/

namespace DailyScheduler.Transfer

open AtomicProg

/-- Some `clean` accepts the stored task as it is. -/
def Accepted (env : Env) (t : Task) : Prop := ∃ now, t.clean env now = .ok t

/-- The arguments of a task. -/
abbrev Arguments := List TaskArg × List TaskKwarg

def argumentsOf (id : Nat) (w : World) : Arguments := (w.taskArgs id, w.taskKwargs id)

/-- What the values of the arguments raise, if they do. -/
def valuesError (env : Env) (p : Arguments) : Option PyError :=
  (argsError env p.1).or (argsError env (p.2.map TaskKwarg.toTaskArg))

/-! ## Accepted tasks -/

section Accepted

variable {env : Env} {t : Task}

theorem ok_bind {α β : Type} (a : α) (k : α → Except PyError β) :
    ((Except.ok a : Except PyError α) >>= k) = k a := rfl

theorem bind_ok {α β : Type} {x : Except PyError α} {f : α → Except PyError β} {b : β}
    (h : x >>= f = .ok b) : ∃ a, x = .ok a ∧ f a = .ok b := by
  cases x with
  | error e => cases h
  | ok a => exact ⟨a, rfl, h⟩

/-- An accepted task passes the checks of its fields, and has a time unless it is a cron task. -/
theorem Accepted.fields (h : Accepted env t) :
    t.cleanFields env = .ok () ∧ (t.taskType ≠ .cron → t.scheduledTime.isSome = true) := by
  obtain ⟨now, h⟩ := h
  unfold Task.clean at h
  obtain ⟨⟨⟩, hfields, h⟩ := bind_ok h
  refine ⟨hfields, fun hcron => ?_⟩
  cases hty : t.taskType with
  | cron => exact absurd hty hcron
  | repeatable =>
      cases hs : t.scheduledTime with
      | some s => rfl
      | none =>
          rw [hty, hs] at h
          have ht : (some (now + secs 2) : Option Int) = t.scheduledTime :=
            congrArg Task.scheduledTime (Except.ok.inj h)
          rw [hs] at ht
          cases ht
  | once =>
      cases hs : t.scheduledTime with
      | some s => rfl
      | none =>
          rw [hty, hs] at h
          cases h

/-- A task whose fields pass their checks is accepted as it is when it has a time that is not too
early for a one-off task. -/
theorem clean_eq_ok {s now : Int} (hf : t.cleanFields env = .ok ()) (hs : t.scheduledTime = some s)
    (honce : t.taskType = .once → now ≤ s) : t.clean env now = .ok t := by
  unfold Task.clean
  rw [hf, ok_bind, hs]
  cases hty : t.taskType with
  | cron => rfl
  | repeatable => rfl
  | once =>
      have hle := honce hty
      dsimp only
      rw [if_neg (by omega)]
      rfl

theorem clean_late {s now : Int} (hf : t.cleanFields env = .ok ()) (hs : t.scheduledTime = some s)
    (honce : t.taskType = .once) (hlate : s < now) :
    t.clean env now = .error (.validationError "scheduled_time") := by
  unfold Task.clean
  rw [hf, ok_bind, hs, honce]
  dsimp only
  rw [if_pos hlate]
  rfl

theorem cleanFields_eq_ok : t.cleanFields env = .ok () ↔
    t.cleanQueue env = .ok () ∧ t.cleanCallable env = .ok () ∧
      (t.taskType = .cron → t.cleanCronString env = .ok ()) ∧
      (t.taskType = .repeatable → t.cleanIntervalUnit env = .ok () ∧ t.cleanResultTtl = .ok ()) := by
  unfold Task.cleanFields
  constructor
  · intro h
    obtain ⟨⟨⟩, hqueue, h⟩ := bind_ok h
    obtain ⟨⟨⟩, hcallable, h⟩ := bind_ok h
    refine ⟨hqueue, hcallable, fun hty => ?_, fun hty => ?_⟩
    · rw [hty] at h
      exact h
    · rw [hty] at h
      obtain ⟨⟨⟩, hinterval, h⟩ := bind_ok h
      exact ⟨hinterval, h⟩
  · rintro ⟨hqueue, hcallable, hcron, hrepeatable⟩
    rw [hqueue, hcallable]
    cases hty : t.taskType with
    | cron => exact hcron hty
    | once => rfl
    | repeatable =>
        show (t.cleanIntervalUnit env >>= fun _ => t.cleanResultTtl) = _
        rw [(hrepeatable hty).1]
        exact (hrepeatable hty).2

/-- A result must not be gone before the next run, if there is one. -/
theorem cleanResultTtl_eq_ok : t.cleanResultTtl = .ok () ↔
    ∀ r, t.resultTtl = some r → r ≠ 0 → r ≠ -1 →
      ∃ i, t.intervalSeconds = .ok i ∧ (r < i → t.repeat.getD 0 = 0) := by
  unfold Task.cleanResultTtl
  cases t.resultTtl with
  | none => exact ⟨fun _ r h => (by cases h), fun _ => rfl⟩
  | some r =>
      dsimp only
      by_cases hfree : r = 0 ∨ r = -1
      · rw [if_pos hfree]
        refine ⟨fun _ r' h h0 h1 => ?_, fun _ => rfl⟩
        cases h
        exact (hfree.elim h0 h1).elim
      · rw [if_neg hfree]
        obtain ⟨h0, h1⟩ := not_or.1 hfree
        cases hi : t.intervalSeconds with
        | error x =>
            refine ⟨fun h => (by cases h), fun h => ?_⟩
            obtain ⟨i, hi', -⟩ := h r rfl h0 h1
            cases hi'
        | ok i =>
            show (if r < i ∧ t.repeat.getD 0 ≠ 0 then throw (.validationError "") else pure ()
              : Except PyError Unit) = .ok () ↔ _
            constructor
            · intro h r' hr' _ _
              cases hr'
              refine ⟨i, rfl, fun hlt => ?_⟩
              by_contra hne
              rw [if_pos ⟨hlt, hne⟩] at h
              cases h
            · intro h
              obtain ⟨i', hi', hmax⟩ := h r rfl h0 h1
              cases hi'
              rw [if_neg fun hbad => hbad.2 (hmax hbad.1)]
              rfl

theorem isAsync_of_fields (hf : t.cleanFields env = .ok ()) :
    ∃ isAsync, env.queues t.queue = some isAsync := by
  have hq := (cleanFields_eq_ok.1 hf).1
  unfold Task.cleanQueue at hq
  cases h : env.queues t.queue with
  | some isAsync => exact ⟨isAsync, rfl⟩
  | none =>
      rw [h] at hq
      cases hq

/-- The interval of an accepted repeatable task is known. -/
theorem interval_of_fields (hf : t.cleanFields env = .ok ()) (hty : t.taskType = .repeatable) :
    ∃ i, t.intervalSeconds = .ok i := by
  have hi := ((cleanFields_eq_ok.1 hf).2.2.2 hty).1
  unfold Task.cleanIntervalUnit at hi
  obtain ⟨i, hi, -⟩ := bind_ok hi
  exact ⟨i, hi⟩

theorem jobMeta_of_fields (hf : t.cleanFields env = .ok ()) : ∃ m, t.jobMeta = .ok m := by
  unfold Task.jobMeta
  cases hty : t.taskType with
  | cron => exact ⟨_, rfl⟩
  | once => exact ⟨_, rfl⟩
  | repeatable =>
      obtain ⟨i, hi⟩ := interval_of_fields hf hty
      dsimp only
      rw [hi]
      exact ⟨_, rfl⟩

end Accepted

/-! ## Arguments -/

theorem argsError_append (env : Env) (l l' : List TaskArg) :
    argsError env (l ++ l') = (argsError env l).or (argsError env l') := by
  induction l with
  | nil => rfl
  | cons a l ih =>
      simp only [List.cons_append, argsError]
      cases a.value env with
      | error x => rfl
      | ok v => exact ih

theorem valuesError_eq_none {env : Env} {p : Arguments} : valuesError env p = none ↔
    argsError env p.1 = none ∧ argsError env (p.2.map TaskKwarg.toTaskArg) = none := by
  unfold valuesError
  rw [Option.or_eq_none_iff]

/-- The row of the task is stored, and a save accepts it and leaves it as it is. -/
structure Settled (env : Env) (x : Task) (w : World) : Prop where
  row : w.tasks.find? x.id = some x
  clean : x.clean env w.now = .ok x
  queue : ∃ isAsync, env.queues x.queue = some isAsync

/-- No job is made for the task: it is disabled, or late and has no repeats left to catch up. -/
def Idle (env : Env) (x : Task) (w : World) : Prop :=
  x.jobName = none ∧ (x.enabled = false ∨ (x.enabled = true ∧ x.scheduleTime env w.now = .ok x ∧
    x.inThePast w.now = .ok true))

section Saving

variable {env : Env} {x : Task} {w w' : World}

theorem Settled.of_eq (h : Settled env x w) (hrow : w'.tasks.find? x.id = some x)
    (hnow : w'.now = w.now) : Settled env x w' :=
  ⟨hrow, by rw [hnow]; exact h.clean, h.queue⟩

theorem Idle.of_eq (h : Idle env x w) (hnow : w'.now = w.now) : Idle env x w' := by
  unfold Idle
  rw [hnow]
  exact h

theorem Pending.of_eq (h : x.Pending w) (hreg : w'.registry = w.registry) : x.Pending w' := by
  obtain ⟨n, hn, hp⟩ := h
  refine ⟨n, hn, ?_⟩
  simp only [World.inRegistry_iff, hreg] at hp ⊢
  exact hp

/-- The world after the row was written twice. -/
def storedTwice (x : Task) (w : World) : World := (w.putTask x).putTask x

@[simp] theorem storedTwice_now : (storedTwice x w).now = w.now := rfl
@[simp] theorem storedTwice_registry : (storedTwice x w).registry = w.registry := rfl
@[simp] theorem storedTwice_argumentsOf (id : Nat) :
    argumentsOf id (storedTwice x w) = argumentsOf id w := rfl

theorem find?_storedTwice : (storedTwice x w).tasks.find? x.id = some x := by
  show (((w.tasks.put x).put x).find? x.id) = some x
  rw [TaskTable.find?_put, if_pos rfl]

theorem run_saveContentObject (h : Settled env x w) :
    (Task.saveContentObject env x.id).run w
      = ((x.saveCleaned env true).run w).andThen fun _ => pure () := by
  unfold Task.saveContentObject
  rw [Prog.run_bind, Prog.run_read, Prog.Outcome.andThen_ok, h.row]
  dsimp only
  rw [Prog.run_bind, Task.run_save_clean, h.clean]
  rfl

/-- The rows of all other tasks are as they were. -/
def SameElsewhere (id : Nat) (w w' : World) : Prop :=
  ∀ i, i ≠ id → w'.tasks.find? i = w.tasks.find? i

theorem SameElsewhere.trans {id : Nat} {w w' w'' : World} (h : SameElsewhere id w w')
    (h' : SameElsewhere id w' w'') : SameElsewhere id w w'' :=
  fun i hi => (h' i hi).trans (h i hi)

theorem SameElsewhere.of_tasks {id : Nat} (h : w'.tasks = w.tasks) : SameElsewhere id w w' :=
  fun i _ => by rw [h]

theorem sameElsewhere_putTask (x : Task) (w : World) : SameElsewhere x.id w (w.putTask x) :=
  fun _ hi => (TaskTable.find?_put ..).trans (if_neg hi)

theorem sameElsewhere_storedTwice : SameElsewhere x.id w (storedTwice x w) :=
  (sameElsewhere_putTask x w).trans (sameElsewhere_putTask x _)

theorem find?_putTask (x : Task) (w : World) : (w.putTask x).tasks.find? x.id = some x :=
  (TaskTable.find?_put ..).trans (if_pos rfl)

/-- While the job of the task waits, a save changes nothing. -/
theorem run_save_of_pending (h : Settled env x w) (hp : x.Pending w) :
    (Task.saveContentObject env x.id).run w = ⟨.ok (), storedTwice x w, []⟩ := by
  obtain ⟨isAsync, hq⟩ := h.queue
  have hp' : x.Pending (w.putTask x) := Pending.of_eq hp rfl
  rw [run_saveContentObject h, Task.run_saveCleaned, Task.run_schedule_of_pending hp' hq]
  rfl

/-- Scheduling a task that gets no job prints it. -/
theorem run_scheduleNext_of_idle (hi : Idle env x w) : (x.scheduleNext env).run w
    = match valuesError env (argumentsOf x.id w) with
      | some e => ⟨.error e, w, []⟩
      | none => ⟨.ok x, w, []⟩ := by
  have hdescribe : x.describeError env w = valuesError env (argumentsOf x.id w) := rfl
  rcases hi.2 with hdis | ⟨hen, htime, hpast⟩
  · rewrite [Task.run_scheduleNext_disabled hdis, hdescribe]
    cases valuesError env (argumentsOf x.id w) <;> rfl
  · rewrite [Task.run_scheduleNext hen htime, hpast, hdescribe]
    cases valuesError env (argumentsOf x.id w) <;> rfl

theorem run_saveCleaned_of_idle (hi : Idle env x w) : (x.saveCleaned env true).run w
    = match valuesError env (argumentsOf x.id w) with
      | some e => ⟨.error e, w.putTask x, []⟩
      | none => ⟨.ok x, storedTwice x w, []⟩ := by
  have hi' : Idle env x (w.putTask x) := hi.of_eq rfl
  have hargs : argumentsOf x.id (w.putTask x) = argumentsOf x.id w := rfl
  rw [Task.run_saveCleaned, Task.run_schedule_of_none hi.1, run_scheduleNext_of_idle hi', hargs]
  cases valuesError env (argumentsOf x.id w) <;> rfl

theorem run_save_of_idle (h : Settled env x w) (hi : Idle env x w) :
    (Task.saveContentObject env x.id).run w
      = match valuesError env (argumentsOf x.id w) with
        | some e => ⟨.error e, w.putTask x, []⟩
        | none => ⟨.ok (), storedTwice x w, []⟩ := by
  rw [run_saveContentObject h, run_saveCleaned_of_idle hi]
  cases valuesError env (argumentsOf x.id w) <;> rfl

end Saving

/-! ## Storing the arguments -/

section Inserting

variable {env : Env} {x : Task} {α : Type}

/-- The function `add` inserts a row that `push` adds to the arguments of the task `x`. -/
structure Inserts (env : Env) (x : Task) (add : World → α → World)
    (push : Arguments → α → Arguments) : Prop where
  now : ∀ w a, (add w a).now = w.now
  registry : ∀ w a, (add w a).registry = w.registry
  tasks : ∀ w a, (add w a).tasks = w.tasks
  arguments : ∀ w a, argumentsOf x.id (add w a) = push (argumentsOf x.id w) a
  back : ∀ p a, valuesError env (push p a) = none → valuesError env p = none

theorem inserts_args (env : Env) (x : Task) :
    Inserts env x (fun w a => w.addTaskArg x.id a) fun p a => (p.1 ++ [a], p.2) where
  now := fun _ _ => rfl
  registry := fun _ _ => rfl
  tasks := fun _ _ => rfl
  arguments := fun w a => by simp [argumentsOf, World.addTaskArg]
  back := fun p a h => by
    rw [valuesError_eq_none] at h ⊢
    obtain ⟨hargs, hkwargs⟩ := h
    dsimp only at hargs
    rw [argsError_append, Option.or_eq_none_iff] at hargs
    exact ⟨hargs.1, hkwargs⟩

theorem inserts_kwargs (env : Env) (x : Task) :
    Inserts env x (fun w a => w.addTaskKwarg x.id a) fun p a => (p.1, p.2 ++ [a]) where
  now := fun _ _ => rfl
  registry := fun _ _ => rfl
  tasks := fun _ _ => rfl
  arguments := fun w a => by simp [argumentsOf, World.addTaskKwarg]
  back := fun p a h => by
    rw [valuesError_eq_none] at h ⊢
    obtain ⟨hargs, hkwargs⟩ := h
    dsimp only at hkwargs
    rw [List.map_append, argsError_append, Option.or_eq_none_iff] at hkwargs
    exact ⟨hargs, hkwargs.1⟩

variable {add : World → α → World} {push : Arguments → α → Arguments}

/-- The loop that inserts rows, saving the task after each. -/
def insertAll (env : Env) (x : Task) (add : World → α → World) (l : List α) : Py Unit :=
  Prog.forEach l fun a => do
    Prog.write (add · a)
    Task.saveContentObject env x.id

theorem run_insertAll_cons (a : α) (l : List α) (w : World) :
    (insertAll env x add (a :: l)).run w
      = ((Task.saveContentObject env x.id).run (add w a)).andThen fun _ => insertAll env x add l := by
  unfold insertAll
  rw [Prog.forEach, Prog.run_bind, Prog.run_bind, Prog.run_write, Prog.Outcome.andThen_ok]
  rfl

theorem valuesError_of_foldl (hadd : Inserts env x add push) {l : List α} {p : Arguments}
    (h : valuesError env (l.foldl push p) = none) : valuesError env p = none := by
  induction l generalizing p with
  | nil => exact h
  | cons a l ih => exact hadd.back p a (ih h)

/-- The task has its job, or it gets none and the values of its arguments can be computed. -/
def Saves (env : Env) (x : Task) (w : World) (p : Arguments) : Prop :=
  x.Pending w ∨ (Idle env x w ∧ valuesError env p = none)

theorem Settled.inserted (hadd : Inserts env x add push) {w : World} (h : Settled env x w) (a : α) :
    Settled env x (add w a) := by
  have hrow : (add w a).tasks.find? x.id = some x := by
    rw [hadd.tasks]
    exact h.row
  exact h.of_eq hrow (hadd.now w a)

/-- All rows are inserted when the task has its job, or the values of all arguments can be
computed. -/
theorem insertAll_ok (hadd : Inserts env x add push) (l : List α) {w : World}
    (h : Settled env x w) (hmode : Saves env x w (l.foldl push (argumentsOf x.id w))) :
    ∃ w', (insertAll env x add l).run w = ⟨.ok (), w', []⟩ ∧ Settled env x w' ∧
      (x.Pending w' ∨ Idle env x w') ∧ SameElsewhere x.id w w' ∧
      argumentsOf x.id w' = l.foldl push (argumentsOf x.id w) := by
  induction l generalizing w with
  | nil => exact ⟨w, rfl, h, hmode.imp id And.left, fun _ _ => rfl, rfl⟩
  | cons a l ih =>
      have hs : Settled env x (add w a) := h.inserted hadd a
      have hsave : (Task.saveContentObject env x.id).run (add w a)
          = ⟨.ok (), storedTwice x (add w a), []⟩ := by
        rcases hmode with hp | ⟨hi, hv⟩
        · exact run_save_of_pending hs (Pending.of_eq hp (hadd.registry w a))
        · have hv' : valuesError env (argumentsOf x.id (add w a)) = none := by
            rw [hadd.arguments]
            exact valuesError_of_foldl hadd hv
          rw [run_save_of_idle hs (hi.of_eq (hadd.now w a)), hv']
      have hstored : argumentsOf x.id (storedTwice x (add w a)) = push (argumentsOf x.id w) a :=
        hadd.arguments w a
      have hframe : SameElsewhere x.id w (storedTwice x (add w a)) :=
        (SameElsewhere.of_tasks (hadd.tasks w a)).trans sameElsewhere_storedTwice
      obtain ⟨w', hrun, hs', hmode', hrest, hargs⟩ := ih (w := storedTwice x (add w a))
        (hs.of_eq find?_storedTwice rfl) (by
          rcases hmode with hp | ⟨hi, hv⟩
          · exact Or.inl (Pending.of_eq hp (hadd.registry w a))
          · refine Or.inr ⟨hi.of_eq (hadd.now w a), ?_⟩
            rw [hstored]
            exact hv)
      refine ⟨w', ?_, hs', hmode', hframe.trans hrest, ?_⟩
      · rw [run_insertAll_cons, hsave, Prog.Outcome.andThen_ok, hrun]
        rfl
      · rw [hargs, hstored]
        rfl

/-- The loop raises when the task has no job and the value of some argument raises; the task stays
in its row. -/
theorem insertAll_error (hadd : Inserts env x add push) (l : List α) {w : World}
    (h : Settled env x w) (hi : Idle env x w) (hnone : valuesError env (argumentsOf x.id w) = none)
    (hsome : valuesError env (l.foldl push (argumentsOf x.id w)) ≠ none) :
    ∃ e w', (insertAll env x add l).run w = ⟨.error e, w', []⟩ ∧
      w'.tasks.find? x.id = some x ∧ SameElsewhere x.id w w' := by
  induction l generalizing w with
  | nil => exact absurd hnone hsome
  | cons a l ih =>
      have hs : Settled env x (add w a) := h.inserted hadd a
      have hsave := run_save_of_idle hs (hi.of_eq (hadd.now w a))
      have hadded : SameElsewhere x.id w (add w a) := SameElsewhere.of_tasks (hadd.tasks w a)
      rw [run_insertAll_cons, hsave]
      cases hv : valuesError env (argumentsOf x.id (add w a)) with
      | some e =>
          exact ⟨e, _, rfl, find?_putTask x _, hadded.trans (sameElsewhere_putTask x _)⟩
      | none =>
          have hstored : argumentsOf x.id (storedTwice x (add w a))
              = push (argumentsOf x.id w) a := hadd.arguments w a
          obtain ⟨e, w', hrun, hrow, hrest⟩ := ih (hs.of_eq find?_storedTwice rfl)
            (hi.of_eq (hadd.now w a)) hv (by rw [hstored]; exact hsome)
          refine ⟨e, w', ?_, hrow, (hadded.trans sameElsewhere_storedTwice).trans hrest⟩
          rw [Prog.Outcome.andThen_ok, hrun]
          rfl

end Inserting

/-! ## Creating the task -/

/-- Fewer repeats are accepted when more were. -/
theorem fields_of_fewer {env : Env} {x : Task} {o : Option Int} {r : Option Nat}
    (hle : r.getD 0 ≤ x.repeat.getD 0) (hf : x.cleanFields env = .ok ()) :
    ({ x with scheduledTime := o, «repeat» := r } : Task).cleanFields env = .ok () := by
  rw [cleanFields_eq_ok] at hf ⊢
  obtain ⟨hqueue, hcallable, hcron, hrepeatable⟩ := hf
  refine ⟨hqueue, hcallable, hcron, fun hty => ?_⟩
  obtain ⟨hinterval, httl⟩ := hrepeatable hty
  refine ⟨hinterval, ?_⟩
  rw [cleanResultTtl_eq_ok] at httl ⊢
  intro ttl hset h0 h1
  obtain ⟨i, hi, hmax⟩ := httl ttl hset h0 h1
  refine ⟨i, hi, fun hlt => ?_⟩
  have hzero := hmax hlt
  show r.getD 0 = 0
  omega

/-- What `clean` accepts: the fields pass their checks, and a task that is no cron task has a time,
one that is not past if it is to run once. -/
structure Cleaned (env : Env) (now : Int) (x : Task) : Prop where
  fields : x.cleanFields env = .ok ()
  time : x.taskType ≠ .cron → ∃ s, x.scheduledTime = some s ∧ (x.taskType = .once → now ≤ s)

/-- The job that the task gets next is that of `x'`. -/
structure Next (env : Env) (now : Int) (x x' : Task) : Prop where
  time : x.scheduleTime env now = .ok x'
  future : x'.inThePast now = .ok false
  scheduled : ∃ s, x'.scheduledTime = some s
  cleaned : Cleaned env now x'

section Cleaning

variable {env : Env} {now : Int} {t x : Task}

theorem taskType_cases (t : TaskType) :
    t = .cron ∨ t = .repeatable ∨ t = .once := by
  cases t with
  | cron => exact .inl rfl
  | repeatable => exact .inr (.inl rfl)
  | once => exact .inr (.inr rfl)

/-- `clean` gives a repeatable task without a time one. -/
theorem cleaned_of_clean (h : t.clean env now = .ok x) :
    Cleaned env now x ∧ x = { t with scheduledTime := x.scheduledTime } := by
  unfold Task.clean at h
  obtain ⟨⟨⟩, hfields, h⟩ := bind_ok h
  rcases taskType_cases t.taskType with hty | hty | hty
  · rw [hty] at h
    have hx : t = x := Except.ok.inj h
    subst hx
    exact ⟨⟨hfields, fun hne => absurd hty hne⟩, rfl⟩
  · have honce : t.taskType ≠ .once := by
      rw [hty]
      decide
    rcases hs : t.scheduledTime with - | s
    · rw [hty, hs] at h
      have hx : { t with taskType := .repeatable, scheduledTime := some (now + secs 2) } = x :=
        Except.ok.inj h
      rw [← hty] at hx
      subst hx
      exact ⟨⟨hfields, fun _ => ⟨_, rfl, fun h' => absurd h' honce⟩⟩, rfl⟩
    · rw [hty, hs] at h
      have hx : t = x := Except.ok.inj h
      subst hx
      exact ⟨⟨hfields, fun _ => ⟨s, hs, fun h' => absurd h' honce⟩⟩, rfl⟩
  · rcases hs : t.scheduledTime with - | s
    · rw [hty, hs] at h
      cases h
    · rw [hty, hs] at h
      dsimp only at h
      split at h
      · cases h
      · rename_i hlate
        have hx : t = x := Except.ok.inj h
        subst hx
        exact ⟨⟨hfields, fun _ => ⟨s, hs, fun _ => not_lt.1 hlate⟩⟩, rfl⟩

/-- Such a task is accepted again as it is. -/
theorem Cleaned.clean (h : Cleaned env now x) : x.clean env now = .ok x := by
  by_cases hcron : x.taskType = .cron
  · unfold Task.clean
    rw [h.fields, ok_bind, hcron]
    rfl
  · obtain ⟨s, hs, honce⟩ := h.time hcron
    exact clean_eq_ok h.fields hs honce

theorem Cleaned.next_of_future (h : Cleaned env now x) {s : Int} (hs : x.scheduledTime = some s)
    (hcron : x.taskType ≠ .cron) (hle : now ≤ s) (htime : x.scheduleTime env now = .ok x) :
    Next env now x x where
  time := htime
  future := by
    rw [Task.inThePast_of_some hcron hs, decide_eq_false (not_lt.2 hle)]
  scheduled := ⟨s, hs⟩
  cleaned := h

/-- A cron task gets a job for the next time of its string, if there is one. -/
theorem Cleaned.next_cron (h : Cleaned env now x) (hcron : x.taskType = .cron) :
    (∃ e, x.scheduleTime env now = .error e) ∨ ∃ x', Next env now x x' := by
  have hstring := (cleanFields_eq_ok.1 h.fields).2.2.1 hcron
  unfold Task.cleanCronString at hstring
  cases hc : x.cronString with
  | none =>
      rw [hc] at hstring
      cases hstring
  | some c =>
      have htime := @Task.scheduleTime_cron env x now c hcron hc
      cases hd : (env.croniter c).bind (· now) with
      | none =>
          rw [hd] at htime
          exact .inl ⟨_, htime⟩
      | some d =>
          rw [hd] at htime
          exact .inr ⟨_, htime, Task.inThePast_of_cron hcron, ⟨d, rfl⟩, h.fields,
            fun hne => absurd hcron hne⟩

/-- A repeatable task that is late moves on by whole intervals, or stays when it has too few repeats
left. -/
theorem Cleaned.next_late (h : Cleaned env now x) (hty : x.taskType = .repeatable) {s i : Int}
    (hs : x.scheduledTime = some s) (hi : x.intervalSeconds = .ok i) (hlate : s < now) :
    (∃ e, x.scheduleTime env now = .error e) ∨
      (x.scheduleTime env now = .ok x ∧ x.inThePast now = .ok true) ∨
      ∃ x', Next env now x x' := by
  have htime := @Task.scheduleTime_repeatable_late env x now s i hty hs hlate hi
  have hcron : x.taskType ≠ .cron := by
    rw [hty]
    decide
  by_cases hzero : i = 0
  · rw [if_pos hzero] at htime
    exact .inl ⟨_, htime⟩
  · rw [if_neg hzero] at htime
    have hstep : 0 < secs i := by
      have hnonneg := Task.intervalSeconds_nonneg hi
      unfold secs
      omega
    by_cases hfew : ∃ r : Nat, x.repeat = some r ∧ (r : Int) < Task.gap now s (secs i)
    · obtain ⟨r, hr, hlt⟩ := hfew
      rw [Task.advanceSchedule_of_few hr hlt] at htime
      refine .inr (.inl ⟨htime, ?_⟩)
      rw [Task.inThePast_of_some hcron hs, decide_eq_true hlate]
    · have henough : ∀ r, x.repeat = some r → Task.gap now s (secs i) ≤ r := by
        intro r hr
        by_contra hlt
        exact hfew ⟨r, hr, not_le.1 hlt⟩
      rw [Task.advanceSchedule_of_enough henough] at htime
      have hreach := (Task.gap_spec hstep hlate).2
      have hfields := fields_of_fewer (o := some (s + secs i * Task.gap now s (secs i)))
        (r := x.repeat.map fun r : Nat => ((r : Int) - Task.gap now s (secs i)).toNat) (x := x) ?_
        h.fields
      · refine .inr (.inr ⟨_, htime, ?_, ⟨_, rfl⟩, hfields, fun _ => ⟨_, rfl, fun _ => hreach⟩⟩)
        have hlater : ¬ s + secs i * Task.gap now s (secs i) < now := not_lt.2 hreach
        rw [Task.inThePast_of_some (s := s + secs i * Task.gap now s (secs i)) (by exact hcron) rfl,
          decide_eq_false hlater]
      · cases hr : x.repeat with
        | none => exact Nat.zero_le _
        | some r =>
            have hgap := (Task.gap_spec hstep hlate).1
            simp only [Option.map_some, Option.getD_some]
            omega

/-- What `_schedule_time` makes of an accepted task. -/
theorem Cleaned.cases (h : Cleaned env now x) :
    (∃ e, x.scheduleTime env now = .error e) ∨
      (x.scheduleTime env now = .ok x ∧ x.inThePast now = .ok true) ∨
      ∃ x', Next env now x x' := by
  cases hty : x.taskType with
  | cron => exact (h.next_cron hty).imp id .inr
  | once =>
      have hcron : x.taskType ≠ .cron := by
        rw [hty]
        decide
      obtain ⟨s, hs, honce⟩ := h.time hcron
      exact .inr (.inr ⟨x, h.next_of_future hs hcron (honce hty) (Task.scheduleTime_once hty)⟩)
  | repeatable =>
      have hcron : x.taskType ≠ .cron := by
        rw [hty]
        decide
      obtain ⟨s, hs, -⟩ := h.time hcron
      obtain ⟨i, hi⟩ := interval_of_fields h.fields hty
      rcases le_or_gt now s with hle | hlate
      · exact .inr (.inr ⟨x, h.next_of_future hs hcron hle (Task.scheduleTime_repeatable hty hs hle)⟩)
      · exact h.next_late hty hs hi hlate

end Cleaning

section Creating

variable {env : Env} {t x x' : Task} {w : World}

/-- A task that gets no job is saved as it is, or cannot be printed. -/
theorem save_idle (hclean : t.clean env w.now = .ok x) (hi : Idle env x w) :
    (t.save env true true).run w = match valuesError env (argumentsOf x.id w) with
      | some e => ⟨.error e, w.putTask x, []⟩
      | none => ⟨.ok x, storedTwice x w, []⟩ := by
  rw [Task.run_save_clean, hclean]
  exact run_saveCleaned_of_idle hi

/-- Without a next time the save ends after the row is stored. -/
theorem save_no_time (hclean : t.clean env w.now = .ok x) (hjob : x.jobName = none)
    (hen : x.enabled = true) {e : PyError} (htime : x.scheduleTime env w.now = .error e) :
    (t.save env true true).run w = ⟨.error e, w.putTask x, []⟩ := by
  have htime' : x.scheduleTime env (w.putTask x).now = .error e := htime
  rw [Task.run_save_clean, hclean]
  dsimp only
  rw [Task.run_saveCleaned, Task.run_schedule_of_none hjob, Task.run_scheduleNext_error hen htime']
  rfl

theorem run_saveCleaned_createJob (hjob : x.jobName = none) (hen : x.enabled = true)
    (hnext : Next env w.now x x') : (x.saveCleaned env true).run w
      = ((x'.createJob env).run (w.putTask x)).andThen (fun t' => do
        t'.store
        pure t') := by
  have htime : x.scheduleTime env (w.putTask x).now = .ok x' := hnext.time
  have hfuture : x'.inThePast (w.putTask x).now = .ok false := hnext.future
  rw [Task.run_saveCleaned, Task.run_schedule_of_none hjob, Task.run_scheduleNext hen htime, hfuture]

/-- The world after the job was created and the row saved with it. -/
def jobWorld (w : World) (x x' : Task) (job : JobModel) (s : Int) : World :=
  ((((w.putTask x).saveJob job false).saveJob job.saved false).zadd x'.queue .scheduled
    (x'.nextName w) s).putTask (x'.withJob (x'.nextName w))

/-- The next job is created, when it is accepted. -/
theorem saveCleaned_next (hjob : x.jobName = none) (hen : x.enabled = true)
    (hnext : Next env w.now x x') (hfree : x.JobFree env w) :
    ∃ (job : JobModel) (s : Int), job.name = x'.nextName w ∧ job.saveAll = true ∧
      (x.saveCleaned env true).run w
        = ⟨.ok (x'.withJob (x'.nextName w)), jobWorld w x x' job s,
          [.created (x'.nextName w), .taskScheduled x'.id (x'.nextName w)]⟩ := by
  have hframe := Task.scheduleTime_frame hnext.time
  obtain ⟨isAsync, hq⟩ := isAsync_of_fields hnext.cleaned.fields
  obtain ⟨m, hm⟩ := jobMeta_of_fields hnext.cleaned.fields
  obtain ⟨s, hs⟩ := hnext.scheduled
  have hfree' : x'.JobFree env (w.putTask x) := by
    rw [hframe]
    exact hfree
  obtain ⟨job, hname, hall, hcreate⟩ := Task.run_createJob hq hm hs hfree'
  refine ⟨job, Task.scoreOf env s, hname, hall, ?_⟩
  rw [run_saveCleaned_createJob hjob hen hnext, hcreate]
  rfl

/-- Where the next job is accepted, the task is saved with it. -/
theorem save_next (hclean : t.clean env w.now = .ok x) (hjob : x.jobName = none)
    (hen : x.enabled = true) (hnext : Next env w.now x x') (hfree : x.JobFree env w) :
    ∃ n w' es, (t.save env true true).run w = ⟨.ok (x'.withJob n), w', es⟩ ∧
      Settled env (x'.withJob n) w' ∧ (x'.withJob n).Pending w' ∧
      (∀ id, argumentsOf id w' = argumentsOf id w) ∧ w'.now = w.now ∧ SameElsewhere x.id w w' := by
  obtain ⟨isAsync, hq⟩ := isAsync_of_fields hnext.cleaned.fields
  have hid : x'.id = x.id := Task.id_of_scheduleTime hnext.time
  obtain ⟨job, s, hname, -, hrun⟩ := saveCleaned_next hjob hen hnext hfree
  let n := x'.nextName w
  let w₁ := (((w.putTask x).saveJob job false).saveJob job.saved false).zadd x'.queue .scheduled n s
  have hin : w₁.inRegistry x'.queue .scheduled n := by
    rw [World.inRegistry_zadd]
    exact .inl ⟨rfl, rfl, rfl⟩
  refine ⟨n, jobWorld w x x' job s, [.created n, .taskScheduled x'.id n], ?_,
    ⟨?_, ?_, ⟨isAsync, hq⟩⟩, ⟨n, rfl, .inl hin⟩, fun _ => rfl, rfl, ?_⟩
  · rw [Task.run_save_clean, hclean]
    exact hrun
  · exact find?_putTask (x'.withJob n) w₁
  · exact Cleaned.clean ⟨hnext.cleaned.fields, hnext.cleaned.time⟩
  · have hlast : SameElsewhere x.id w₁ (w₁.putTask (x'.withJob n)) := by
      rw [← hid]
      exact sameElsewhere_putTask (x'.withJob n) w₁
    exact (sameElsewhere_putTask x w).trans ((SameElsewhere.of_tasks rfl).trans hlast)

/-- Where it is not, the save ends after the row is stored. -/
theorem save_not_free (hclean : t.clean env w.now = .ok x) (hjob : x.jobName = none)
    (hen : x.enabled = true) (hnext : Next env w.now x x') (hfree : ¬ x.JobFree env w) :
    ∃ e, (t.save env true true).run w = ⟨.error e, w.putTask x, []⟩ := by
  have hframe := Task.scheduleTime_frame hnext.time
  obtain ⟨isAsync, hq⟩ := isAsync_of_fields hnext.cleaned.fields
  obtain ⟨m, hm⟩ := jobMeta_of_fields hnext.cleaned.fields
  obtain ⟨s, hs⟩ := hnext.scheduled
  have hfree' : ¬ x'.JobFree env (w.putTask x) := by
    rw [hframe]
    exact hfree
  obtain ⟨e, he⟩ := Task.run_createJob_error hq hm hs hfree'
  refine ⟨e, ?_⟩
  rw [Task.run_save_clean, hclean]
  dsimp only
  rw [run_saveCleaned_createJob hjob hen hnext, he]
  rfl

/-- The task gets a job now. -/
def GetsJob (env : Env) (x : Task) (w : World) : Prop :=
  x.enabled = true ∧ (∃ x', Next env w.now x x') ∧ x.JobFree env w

/-- The saved object: the row of the task `x`, with its job if it gets one. -/
structure SavedAs (env : Env) (x y : Task) (w w' : World) : Prop where
  settled : Settled env y w'
  id : y.id = x.id
  name : y.name = x.name
  now : w'.now = w.now
  elsewhere : SameElsewhere x.id w w'
  arguments : ∀ id, argumentsOf id w' = argumentsOf id w

/-- A task that gets a job is saved with it. -/
theorem save_job (hclean : t.clean env w.now = .ok x) (hjob : x.jobName = none)
    (h : GetsJob env x w) : ∃ y w' es, (t.save env true true).run w = ⟨.ok y, w', es⟩ ∧
      SavedAs env x y w w' ∧ y.Pending w' := by
  obtain ⟨hen, ⟨x', hnext⟩, hfree⟩ := h
  obtain ⟨n, w', es, hrun, hsettled, hpending, hargs, hnow, helse⟩ :=
    save_next hclean hjob hen hnext hfree
  have hframe := Task.scheduleTime_frame hnext.time
  have hid : x'.id = x.id := by
    rw [hframe]
  have hname : x'.name = x.name := by
    rw [hframe]
  exact ⟨x'.withJob n, w', es, hrun, ⟨hsettled, hid, hname, hnow, helse, hargs⟩, hpending⟩

/-- A task that gets none is saved as it is. -/
theorem save_quiet (hclean : t.clean env w.now = .ok x) (hi : Idle env x w)
    (hv : valuesError env (argumentsOf x.id w) = none) :
    (t.save env true true).run w = ⟨.ok x, storedTwice x w, []⟩ ∧
      SavedAs env x x w (storedTwice x w) := by
  have hcleaned := (cleaned_of_clean hclean).1
  constructor
  · rw [save_idle hclean hi, hv]
  · exact ⟨⟨find?_storedTwice, hcleaned.clean, isAsync_of_fields hcleaned.fields⟩, rfl, rfl, rfl,
      sameElsewhere_storedTwice, fun _ => rfl⟩

/-- Otherwise the save raises when the row is already stored. -/
theorem save_raises (hclean : t.clean env w.now = .ok x) (hjob : x.jobName = none)
    (hjobless : ¬ GetsJob env x w)
    (hloud : ¬ (Idle env x w ∧ valuesError env (argumentsOf x.id w) = none)) :
    ∃ e, (t.save env true true).run w = ⟨.error e, w.putTask x, []⟩ := by
  have hidle : Idle env x w → ∃ e, (t.save env true true).run w = ⟨.error e, w.putTask x, []⟩ := by
    intro hi
    rw [save_idle hclean hi]
    cases hv : valuesError env (argumentsOf x.id w) with
    | none => exact absurd ⟨hi, hv⟩ hloud
    | some e => exact ⟨e, rfl⟩
  cases hen : x.enabled with
  | false => exact hidle ⟨hjob, .inl hen⟩
  | true =>
      rcases (cleaned_of_clean hclean).1.cases with ⟨e, htime⟩ | ⟨htime, hpast⟩ | ⟨x', hnext⟩
      · exact ⟨e, save_no_time hclean hjob hen htime⟩
      · exact hidle ⟨hjob, .inr ⟨hen, htime, hpast⟩⟩
      · exact save_not_free hclean hjob hen hnext fun hfree => hjobless ⟨hen, ⟨x', hnext⟩, hfree⟩

end Creating

theorem foldl_args (l : List TaskArg) (p : Arguments) :
    l.foldl (fun p a => (p.1 ++ [a], p.2)) p = (p.1 ++ l, p.2) := by
  induction l generalizing p with
  | nil => simp
  | cons a l ih => rw [List.foldl_cons, ih]; simp

theorem foldl_kwargs (l : List TaskKwarg) (p : Arguments) :
    l.foldl (fun p a => (p.1, p.2 ++ [a])) p = (p.1, p.2 ++ l) := by
  induction l generalizing p with
  | nil => simp
  | cons a l ih => rw [List.foldl_cons, ih]; simp

/-- The part of the import after the task was created. -/
def insertArguments (env : Env) (x : Task) (p : Arguments) : Py Task := do
  x.describe env
  insertAll env x (fun w a => w.addTaskArg x.id a) p.1
  insertAll env x (fun w a => w.addTaskKwarg x.id a) p.2
  pure x

section

variable {env : Env} {x : Task} {w : World} {p : Arguments}

/-- Some arguments and the given ones. -/
def Arguments.append (p q : Arguments) : Arguments := (p.1 ++ q.1, p.2 ++ q.2)

/-- A task with a job is not idle. -/
theorem not_idle_of_pending (h : x.Pending w) {w' : World} : ¬ Idle env x w' := by
  obtain ⟨n, hn, -⟩ := h
  intro hi
  rw [hi.1] at hn
  cases hn

/-- The mode after the first loop, for the second one. -/
theorem Saves.next {w' : World} {q : Arguments} (h : Saves env x w q)
    (hmode : x.Pending w' ∨ Idle env x w') : Saves env x w' q := by
  rcases h with hp | ⟨hi, hv⟩
  · exact .inl (hmode.resolve_right (not_idle_of_pending hp))
  · exact hmode.imp id fun hi' => ⟨hi', hv⟩

/-- All arguments are stored when those that are there already can be printed, and the task has its
job or the values of all of them can be computed. -/
theorem insertArguments_ok (h : Settled env x w)
    (hprint : valuesError env (argumentsOf x.id w) = none)
    (hmode : Saves env x w ((argumentsOf x.id w).append p)) :
    ∃ w', (insertArguments env x p).run w = ⟨.ok x, w', []⟩ ∧ Settled env x w' ∧
      SameElsewhere x.id w w' ∧ argumentsOf x.id w' = (argumentsOf x.id w).append p := by
  obtain ⟨args, kwargs⟩ := p
  let p₀ := argumentsOf x.id w
  have hfirst : valuesError env (p₀.append (args, kwargs)) = none →
      valuesError env (p₀.1 ++ args, p₀.2) = none := by
    intro hv
    rw [valuesError_eq_none] at hv ⊢
    have hkwargs : argsError env ((p₀.2 ++ kwargs).map TaskKwarg.toTaskArg) = none := hv.2
    rw [List.map_append, argsError_append, Option.or_eq_none_iff] at hkwargs
    exact ⟨hv.1, hkwargs.1⟩
  obtain ⟨w₁, hrun₁, hs₁, hmode₁, hframe₁, hargs₁⟩ := insertAll_ok (inserts_args env x) args h (by
    rw [foldl_args]
    exact hmode.imp id fun hm => ⟨hm.1, hfirst hm.2⟩)
  rw [foldl_args] at hargs₁
  obtain ⟨w₂, hrun₂, hs₂, -, hframe₂, hargs₂⟩ := insertAll_ok (inserts_kwargs env x) kwargs hs₁ (by
    rw [foldl_kwargs, hargs₁]
    exact hmode.next hmode₁)
  rw [foldl_kwargs, hargs₁] at hargs₂
  refine ⟨w₂, ?_, hs₂, hframe₁.trans hframe₂, hargs₂⟩
  have hnone : x.describeError env w = none := hprint
  unfold insertArguments
  rw [Prog.run_bind, Task.run_describe, hnone, Prog.Outcome.andThen_ok, Prog.run_bind, hrun₁,
    Prog.Outcome.andThen_ok, Prog.run_bind, hrun₂]
  rfl

/-- A task that gets no job, and whose arguments have a value that raises, ends the import; the task
stays in its row. -/
theorem insertArguments_error (h : Settled env x w) (hi : Idle env x w)
    (hv : valuesError env ((argumentsOf x.id w).append p) ≠ none) :
    ∃ e w', (insertArguments env x p).run w = ⟨.error e, w', []⟩ ∧
      w'.tasks.find? x.id = some x ∧ SameElsewhere x.id w w' := by
  obtain ⟨args, kwargs⟩ := p
  have hdescribe : x.describeError env w = valuesError env (argumentsOf x.id w) := rfl
  unfold insertArguments
  rw [Prog.run_bind, Task.run_describe, hdescribe]
  cases hprint : valuesError env (argumentsOf x.id w) with
  | some e => exact ⟨e, w, rfl, h.row, fun _ _ => rfl⟩
  | none =>
      rw [Prog.Outcome.andThen_ok, Prog.run_bind]
      by_cases hargs : valuesError env ((argumentsOf x.id w).1 ++ args, (argumentsOf x.id w).2) = none
      · obtain ⟨w₁, hrun₁, hs₁, hmode₁, hframe₁, hargs₁⟩ := insertAll_ok (inserts_args env x) args h
          (by rw [foldl_args]; exact .inr ⟨hi, hargs⟩)
        rw [foldl_args] at hargs₁
        have hi₁ : Idle env x w₁ := hmode₁.resolve_left fun hp => not_idle_of_pending hp hi
        obtain ⟨e, w₂, he, hrow, hframe₂⟩ := insertAll_error (inserts_kwargs env x) kwargs hs₁ hi₁
          (by rw [hargs₁]; exact hargs) (by rw [foldl_kwargs, hargs₁]; exact hv)
        refine ⟨e, w₂, ?_, hrow, hframe₁.trans hframe₂⟩
        rw [hrun₁, Prog.Outcome.andThen_ok, Prog.run_bind, he]
        rfl
      · obtain ⟨e, w₁, he, hrow, hframe⟩ := insertAll_error (inserts_args env x) args h hi hprint
          (by rw [foldl_args]; exact hargs)
        refine ⟨e, w₁, ?_, hrow, hframe⟩
        rw [he]
        rfl

end

end DailyScheduler.Transfer
