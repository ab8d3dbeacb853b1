import DailyScheduler.Tasks.Inserting
import DailyScheduler.Tasks.Removal

set_option autoImplicit false

/-! # An import that fails

`create_task_from_dict` with `update` deletes the old task first; what comes after can fail in many
ways, and nothing is taken back. So the database before the call decides whether the import is done
as a whole or not at all.
-/

namespace DailyScheduler.Import

open AtomicProg Transfer Removal

/-! ## What the dictionary gives -/

/-- The primary key of the new row. -/
def newId (d : TaskEntry) (w : World) : Nat := d.id.getD w.tasks.nextId

/-- The dictionary has both lists of arguments, a readable time, no value that is refused and no
primary key in use, and `clean` makes the task `x` of its object. -/
structure Accepts (env : Env) (d : TaskEntry) (ty : TaskType) (w : World)
    (args : List (Except PyError TaskArg)) (kwargs : List (Except PyError TaskKwarg)) (x : Task) :
    Prop where
  args : d.callableArgs = some args
  kwargs : d.callableKwargs = some kwargs
  refused : d.refused = none
  free : w.tasks.find? (newId d w) = none
  object : ∃ time, d.readTime env = .ok time ∧
    ({ d.toTask ty time with id := newId d w } : Task).clean env w.now = .ok x

/-- The dictionary is rejected before a row is stored. -/
def Rejected (env : Env) (d : TaskEntry) (ty : TaskType) (w : World) : Prop :=
  ∀ args kwargs x, ¬ Accepts env d ty w args kwargs x

/-- The job that the dictionary names waits, or is forgotten and the task gets one now. -/
def HasJob (env : Env) (x : Task) (w : World) : Prop := x.Pending w ∨ GetsJob env x.forgotten w

/-- Once the row of the task `x` is stored, nothing raises: all entries are accepted, the arguments
that are there already can be printed, and the task has a job, or needs none and can be printed
with all its arguments. -/
def Completes (env : Env) (x : Task) (args : List (Except PyError TaskArg))
    (kwargs : List (Except PyError TaskKwarg)) (w : World) : Prop :=
  ∃ p : Arguments, args = p.1.map .ok ∧ kwargs = p.2.map .ok ∧
    valuesError env (argumentsOf x.id w) = none ∧
    (HasJob env x w ∨
      (Idle env x.forgotten w ∧ valuesError env ((argumentsOf x.id w).append p) = none))

/-- The dictionary is inserted as a whole. -/
def Insertable (env : Env) (d : TaskEntry) (ty : TaskType) (w : World) : Prop :=
  ∃ args kwargs x, Accepts env d ty w args kwargs x ∧ Completes env x args kwargs w

section Accepts

variable {env : Env} {d : TaskEntry} {ty : TaskType} {w : World}
  {args : List (Except PyError TaskArg)} {kwargs : List (Except PyError TaskKwarg)} {x : Task}

theorem Accepts.id (h : Accepts env d ty w args kwargs x) : x.id = newId d w := by
  obtain ⟨time, -, hclean⟩ := h.object
  rw [(cleaned_of_clean hclean).2]

theorem Accepts.name (h : Accepts env d ty w args kwargs x) : x.name = d.name.getD "" := by
  obtain ⟨time, -, hclean⟩ := h.object
  rw [(cleaned_of_clean hclean).2]
  rfl

/-- The part of the import after the task was created. -/
def storeEntries (env : Env) (args : List (Except PyError TaskArg))
    (kwargs : List (Except PyError TaskKwarg)) (y : Task) : Py Task := do
  y.describe env
  TaskEntry.forEntries args fun a => Task.createArg env y.id a
  TaskEntry.forEntries kwargs fun a => Task.createKwarg env y.id a
  pure y

theorem run_create (hrefused : d.refused = none) (hfree : w.tasks.find? (newId d w) = none) (t : Task) :
    (d.create env t).run w = (({ t with id := newId d w } : Task).save env true true).run w := by
  unfold TaskEntry.create
  rw [hrefused]
  cases hid : d.id with
  | none =>
      have hnew : newId d w = w.tasks.nextId := by
        unfold newId
        rw [hid]
        rfl
      dsimp only
      unfold Task.create
      rw [hnew, Prog.run_bind, Prog.run_read, Prog.Outcome.andThen_ok]
      rfl
  | some id =>
      have hnew : newId d w = id := by
        unfold newId
        rw [hid]
        rfl
      rw [hnew] at hfree
      dsimp only
      rw [hnew, Prog.run_bind, Prog.run_read, Prog.Outcome.andThen_ok, hfree]
      rfl

/-- An accepted dictionary is saved, and then its arguments. -/
theorem run_insert (h : Accepts env d ty w args kwargs x) :
    ∃ t : Task, t.clean env w.now = .ok x ∧ (d.insert env ty).run w
      = ((t.save env true true).run w).andThen (storeEntries env args kwargs) := by
  obtain ⟨time, htime, hclean⟩ := h.object
  refine ⟨_, hclean, ?_⟩
  unfold TaskEntry.insert
  rw [h.args, h.kwargs, htime]
  dsimp only
  rw [Prog.run_bind, run_create h.refused h.free]
  rfl

/-- What is refused, a primary key in use, and an object that `clean` rejects, change nothing. -/
theorem run_create_error {t : Task} (h : d.refused = none → w.tasks.find? (newId d w) = none →
      ∀ x, ({ t with id := newId d w } : Task).clean env w.now ≠ .ok x) :
    ∃ e, (d.create env t).run w = ⟨.error e, w, []⟩ := by
  cases hrefused : d.refused with
  | some e =>
      refine ⟨e, ?_⟩
      unfold TaskEntry.create
      rw [hrefused]
      rfl
  | none =>
      cases hfree : w.tasks.find? (newId d w) with
      | none =>
          rw [run_create hrefused hfree, Task.run_save_clean]
          cases hclean : ({ t with id := newId d w } : Task).clean env w.now with
          | ok x => exact absurd hclean (h hrefused hfree x)
          | error e => exact ⟨e, rfl⟩
      | some t' =>
          refine ⟨.exception "IntegrityError", ?_⟩
          unfold TaskEntry.create
          rw [hrefused]
          cases hid : d.id with
          | none =>
              unfold newId at hfree
              rw [hid, Option.getD_none, w.tasks.find?_nextId] at hfree
              cases hfree
          | some id =>
              unfold newId at hfree
              rw [hid, Option.getD_some] at hfree
              dsimp only
              rw [Prog.run_bind, Prog.run_read, Prog.Outcome.andThen_ok, hfree]
              rfl

/-- A rejected dictionary changes nothing. -/
theorem run_insert_rejected (h : Rejected env d ty w) :
    ∃ e, (d.insert env ty).run w = ⟨.error e, w, []⟩ := by
  unfold TaskEntry.insert
  cases hargs : d.callableArgs with
  | none => exact ⟨_, rfl⟩
  | some args =>
      cases hkwargs : d.callableKwargs with
      | none => exact ⟨_, rfl⟩
      | some kwargs =>
          cases htime : d.readTime env with
          | error e => exact ⟨e, rfl⟩
          | ok time =>
              obtain ⟨e, he⟩ := @run_create_error env d w (d.toTask ty time) fun hrefused hfree x hclean =>
                h args kwargs x ⟨hargs, hkwargs, hrefused, hfree, time, htime, hclean⟩
              refine ⟨e, ?_⟩
              dsimp only
              rw [Prog.run_bind, he, Prog.Outcome.andThen_error]

end Accepts

/-! ## Saving the object -/

section Saving

variable {env : Env} {w : World} {t x : Task}

theorem savedAs_of_forgotten {y : Task} {w₀ w₁ : World} (h : SavedAs env x.forgotten y w₀ w₁)
    (hw₀ : w₀ = w ∨ w₀ = w.putTask x) : SavedAs env x y w w₁ := by
  have helse : SameElsewhere x.id w w₀ ∧ w₀.now = w.now ∧ ∀ id, argumentsOf id w₀ = argumentsOf id w := by
    rcases hw₀ with rfl | rfl
    · exact ⟨fun _ _ => rfl, rfl, fun _ => rfl⟩
    · exact ⟨sameElsewhere_putTask x w, rfl, fun _ => rfl⟩
  exact ⟨h.settled, h.id, h.name, h.now.trans helse.2.1, helse.1.trans h.elsewhere,
    fun id => (h.arguments id).trans (helse.2.2 id)⟩

/-- A job that does not wait is forgotten, and the object saved as one without a job. -/
theorem save_lost (hclean : t.clean env w.now = .ok x) (hp : ¬ x.Pending w) :
    ∃ w₀, (w₀ = w ∨ w₀ = w.putTask x) ∧ x.forgotten.clean env w₀.now = .ok x.forgotten ∧
      (t.save env true true).run w = (x.forgotten.save env true true).run w₀ := by
  have hcleaned := (cleaned_of_clean hclean).1
  have hforgotten : x.forgotten.clean env w.now = .ok x.forgotten :=
    Cleaned.clean ⟨hcleaned.fields, hcleaned.time⟩
  have hrun : (t.save env true true).run w = (x.saveCleaned env true).run w := by
    rw [Task.run_save_clean, hclean]
  cases hjob : x.jobName with
  | none =>
      have hsame : x.forgotten = x := by
        unfold Task.forgotten
        rw [← hjob]
      refine ⟨w, .inl rfl, hforgotten, ?_⟩
      rw [hrun, Task.run_save_clean, hforgotten, hsame]
  | some n =>
      obtain ⟨isAsync, hq⟩ := isAsync_of_fields hcleaned.fields
      have hlost : ¬ x.Pending (w.putTask x) := fun h => hp (Pending.of_eq h rfl)
      refine ⟨w.putTask x, .inr rfl, hforgotten, ?_⟩
      have hforgotten' : x.forgotten.clean env (w.putTask x).now = .ok x.forgotten := hforgotten
      rw [hrun, Task.run_save_clean, hforgotten']
      dsimp only
      rw [Task.run_saveCleaned, Task.run_saveCleaned, Task.run_schedule_of_lost hjob hlost hq,
        Task.run_schedule_of_none (Task.forgotten_jobName x)]

/-- A task that has a job is saved with it. -/
theorem save_hasJob (hclean : t.clean env w.now = .ok x) (h : HasJob env x w) :
    ∃ y w' es, (t.save env true true).run w = ⟨.ok y, w', es⟩ ∧ SavedAs env x y w w' ∧ y.Pending w' := by
  by_cases hp : x.Pending w
  · have hcleaned := (cleaned_of_clean hclean).1
    obtain ⟨isAsync, hq⟩ := isAsync_of_fields hcleaned.fields
    have hp' : x.Pending (w.putTask x) := Pending.of_eq hp rfl
    refine ⟨x, storedTwice x w, [], ?_, ?_, Pending.of_eq hp rfl⟩
    · rw [Task.run_save_clean, hclean]
      dsimp only
      rw [Task.run_saveCleaned, Task.run_schedule_of_pending hp' hq]
      rfl
    · exact ⟨⟨find?_storedTwice, hcleaned.clean, isAsync, hq⟩, rfl, rfl, rfl, sameElsewhere_storedTwice,
        fun _ => rfl⟩
  · obtain ⟨w₀, hw₀, hforgotten, hrun⟩ := save_lost hclean hp
    have hjob : GetsJob env x.forgotten w₀ := by
      rcases hw₀ with rfl | rfl <;> exact h.resolve_left hp
    obtain ⟨y, w', es, hsave, hsaved, hpending⟩ := save_job hforgotten rfl hjob
    exact ⟨y, w', es, hrun.trans hsave, savedAs_of_forgotten hsaved hw₀, hpending⟩

/-- A task that gets none is saved without one. -/
theorem save_jobless (hclean : t.clean env w.now = .ok x) (hp : ¬ x.Pending w)
    (hi : Idle env x.forgotten w) (hv : valuesError env (argumentsOf x.id w) = none) :
    ∃ w', (t.save env true true).run w = ⟨.ok x.forgotten, w', []⟩ ∧ SavedAs env x x.forgotten w w' ∧
      Idle env x.forgotten w' := by
  obtain ⟨w₀, hw₀, hforgotten, hrun⟩ := save_lost hclean hp
  have hquiet : Idle env x.forgotten w₀ ∧ valuesError env (argumentsOf x.forgotten.id w₀) = none := by
    rcases hw₀ with rfl | rfl <;> exact ⟨hi, hv⟩
  obtain ⟨hsave, hsaved⟩ := save_quiet hforgotten hquiet.1 hquiet.2
  exact ⟨_, hrun.trans hsave, savedAs_of_forgotten hsaved hw₀, hquiet.1.of_eq rfl⟩

/-- Otherwise the save raises, after it has stored the row. -/
theorem save_stops (hclean : t.clean env w.now = .ok x) (hjobless : ¬ HasJob env x w)
    (hloud : ¬ (Idle env x.forgotten w ∧ valuesError env (argumentsOf x.id w) = none)) :
    ∃ e w', (t.save env true true).run w = ⟨.error e, w', []⟩ ∧ w'.tasks.find? x.id ≠ none ∧
      SameElsewhere x.id w w' := by
  obtain ⟨hp, hnojob⟩ := not_or.1 hjobless
  obtain ⟨w₀, hw₀, hforgotten, hrun⟩ := save_lost hclean hp
  have helse : SameElsewhere x.id w w₀ := by
    rcases hw₀ with rfl | rfl
    · exact fun _ _ => rfl
    · exact sameElsewhere_putTask x w
  obtain ⟨e, he⟩ := save_raises hforgotten rfl (w := w₀)
    (by rcases hw₀ with rfl | rfl <;> exact hnojob) (by rcases hw₀ with rfl | rfl <;> exact hloud)
  refine ⟨e, w₀.putTask x.forgotten, hrun.trans he, ?_, helse.trans (sameElsewhere_putTask x.forgotten w₀)⟩
  have hrow := find?_putTask x.forgotten w₀
  rw [Task.forgotten_id] at hrow
  rw [hrow]
  simp

end Saving

/-! ## Storing the entries -/

section Entries

variable {env : Env} {y : Task} {w w' : World} {args : List (Except PyError TaskArg)}
  {kwargs : List (Except PyError TaskKwarg)}

/-- While the arguments are stored, the row stays, and so do the rows of the other tasks. -/
structure Steady (env : Env) (y : Task) (w w' : World) : Prop where
  settled : Settled env y w'
  mode : y.Pending w' ∨ Idle env y w'
  elsewhere : SameElsewhere y.id w w'

theorem Steady.of_tasks {w'' : World} (h : Steady env y w w') (htasks : w''.tasks = w'.tasks)
    (hnow : w''.now = w'.now) (hreg : w''.registry = w'.registry) : Steady env y w w'' where
  settled := h.settled.of_eq (by rw [htasks]; exact h.settled.row) hnow
  mode := h.mode.imp (fun hp => Pending.of_eq hp hreg) fun hi => hi.of_eq hnow
  elsewhere := h.elsewhere.trans (SameElsewhere.of_tasks htasks)

theorem Steady.putTask (h : Steady env y w w') : Steady env y w (w'.putTask y) where
  settled := h.settled.of_eq (find?_putTask y w') rfl
  mode := h.mode.imp (fun hp => Pending.of_eq hp rfl) fun hi => hi.of_eq rfl
  elsewhere := h.elsewhere.trans (sameElsewhere_putTask y w')

theorem Steady.save (h : Steady env y w w') :
    Steady env y w ((Task.saveContentObject env y.id).exec w') := by
  rcases h.mode with hp | hi
  · rw [Prog.exec_eq_of_run (run_save_of_pending h.settled hp)]
    exact h.putTask.putTask
  · rw [Prog.exec, run_save_of_idle h.settled hi]
    cases valuesError env (argumentsOf y.id w') with
    | some e => exact h.putTask
    | none => exact h.putTask.putTask

/-- Each round of a loop over entries keeps the row, whether it raises or not. -/
theorem Steady.forEntries {α : Type} {add : World → α → World}
    {push : Arguments → α → Arguments} (hadd : Inserts env y add push)
    (l : List (Except PyError α)) (h : Steady env y w w') :
    Steady env y w ((TaskEntry.forEntries l fun a => do
      Prog.write (add · a)
      Task.saveContentObject env y.id).exec w') := by
  refine Prog.exec_forEach_keeps (I := Steady env y w) (fun a _ w' hw => ?_) h
  cases a with
  | error e => exact hw
  | ok a =>
      have hadded : Steady env y w (add w' a) :=
        hw.of_tasks (hadd.tasks w' a) (hadd.now w' a) (hadd.registry w' a)
      show Steady env y w ((Prog.write (add · a) >>= fun _ =>
        Task.saveContentObject env y.id).exec w')
      rw [Prog.exec_bind, Prog.run_write]
      exact hadded.save

theorem Steady.storeEntries (h : Steady env y w w') :
    Steady env y w ((storeEntries env args kwargs y).exec w') := by
  unfold Import.storeEntries
  rw [Task.exec_describe_bind]
  cases y.describeError env w' with
  | some e => exact h
  | none =>
      have hargs := h.forEntries (inserts_args env y) args
      refine Prog.exec_bind_keeps (I := Steady env y w) hargs fun _ _ => ?_
      have hkwargs := hargs.forEntries (inserts_kwargs env y) kwargs
      refine Prog.exec_bind_keeps (I := Steady env y w) hkwargs fun _ _ => ?_
      exact hkwargs

/-- All entries are accepted, or some entry is not. -/
theorem entries_cases {α : Type} (l : List (Except PyError α)) :
    (∃ good : List α, l = good.map .ok) ∨ ∃ e, .error e ∈ l := by
  induction l with
  | nil => exact .inl ⟨[], rfl⟩
  | cons a l ih =>
      cases a with
      | error e => exact .inr ⟨e, List.mem_cons_self⟩
      | ok a =>
          rcases ih with ⟨good, rfl⟩ | ⟨e, he⟩
          · exact .inl ⟨a :: good, rfl⟩
          · exact .inr ⟨e, List.mem_cons_of_mem _ he⟩

theorem error_forEntries {α : Type} {l : List (Except PyError α)} {f : α → Py Unit}
    (h : ∃ e, .error e ∈ l) (w : World) :
    ∃ x, ((TaskEntry.forEntries l f).run w).val = .error x := by
  obtain ⟨e, he⟩ := h
  exact Prog.error_forEach ⟨.error e, he, fun _ => ⟨e, rfl⟩⟩ w

theorem storeEntries_ok (p : Arguments) :
    storeEntries env (p.1.map .ok) (p.2.map .ok) y = insertArguments env y p := by
  unfold storeEntries insertArguments
  rw [TaskEntry.forEntries_ok, TaskEntry.forEntries_ok]
  rfl

/-- The row is stored with all arguments, when nothing raises. -/
theorem storeEntries_completes {p : Arguments} (hs : Settled env y w)
    (hprint : valuesError env (argumentsOf y.id w) = none)
    (hmode : Saves env y w ((argumentsOf y.id w).append p)) :
    ∃ w', (storeEntries env (p.1.map .ok) (p.2.map .ok) y).run w = ⟨.ok y, w', []⟩ ∧
      Settled env y w' ∧ SameElsewhere y.id w w' ∧
      argumentsOf y.id w' = (argumentsOf y.id w).append p := by
  rw [storeEntries_ok]
  exact insertArguments_ok hs hprint hmode

/-- Otherwise an exception ends the import. -/
theorem storeEntries_raises (hs : Settled env y w) (hmode : y.Pending w ∨ Idle env y w)
    (h : ¬ ∃ p : Arguments, args = p.1.map .ok ∧ kwargs = p.2.map .ok ∧
      valuesError env (argumentsOf y.id w) = none ∧
      (y.Pending w ∨ valuesError env ((argumentsOf y.id w).append p) = none)) :
    ∃ e, ((storeEntries env args kwargs y).run w).val = .error e := by
  rcases entries_cases args with ⟨a, rfl⟩ | hbad
  · rcases entries_cases kwargs with ⟨k, rfl⟩ | hbad
    · cases hprint : valuesError env (argumentsOf y.id w) with
      | some e =>
          have hdescribe : y.describeError env w = some e := hprint
          refine Prog.error_bind_left ⟨e, ?_⟩
          rw [Task.run_describe, hdescribe]
      | none =>
          have hnot : ¬ (y.Pending w ∨
              valuesError env ((argumentsOf y.id w).append (a, k)) = none) :=
            fun hor => h ⟨(a, k), rfl, rfl, hprint, hor⟩
          obtain ⟨hpending, hv⟩ := not_or.1 hnot
          obtain ⟨e, w', he, -⟩ :=
            insertArguments_error hs (hmode.resolve_left hpending) (p := (a, k)) hv
          refine ⟨e, ?_⟩
          rw [storeEntries_ok (a, k), he]
    · refine Prog.error_bind_right fun _ w => Prog.error_bind_right fun _ w => ?_
      exact Prog.error_bind_left (error_forEntries hbad w)
  · refine Prog.error_bind_right fun _ w => ?_
    exact Prog.error_bind_left (error_forEntries hbad w)

end Entries

/-! ## Inserting -/

section Insert

variable {env : Env} {d : TaskEntry} {ty : TaskType} {w : World}
  {args : List (Except PyError TaskArg)} {kwargs : List (Except PyError TaskKwarg)} {x : Task}

/-- A complete insertion: the new row with its arguments, and all other rows as they were. -/
structure Inserted (env : Env) (d : TaskEntry) (w : World) (y : Task) (w' : World) : Prop where
  free : w.tasks.find? y.id = none
  name : y.name = d.name.getD ""
  row : w'.tasks.find? y.id = some y
  elsewhere : SameElsewhere y.id w w'
  arguments : ∃ p : Arguments, d.callableArgs = some (p.1.map .ok) ∧
    d.callableKwargs = some (p.2.map .ok) ∧
    argumentsOf y.id w' = (argumentsOf y.id w).append p

/-- What is stored for a saved task whose arguments raise nothing. -/
theorem insert_saved (h : Accepts env d ty w args kwargs x) {t y : Task} {w₁ : World}
    {es : List Event} (hinsert : (d.insert env ty).run w
      = ((t.save env true true).run w).andThen (storeEntries env args kwargs))
    (hrun : (t.save env true true).run w = ⟨.ok y, w₁, es⟩) (hsaved : SavedAs env x y w w₁)
    {p : Arguments} (hargs : args = p.1.map .ok) (hkwargs : kwargs = p.2.map .ok)
    (hprint : valuesError env (argumentsOf x.id w) = none)
    (hmode : Saves env y w₁ ((argumentsOf x.id w).append p)) :
    ∃ y w' es, (d.insert env ty).run w = ⟨.ok y, w', es⟩ ∧ Inserted env d w y w' := by
  have hsame : argumentsOf y.id w₁ = argumentsOf x.id w := by
    rw [hsaved.arguments, hsaved.id]
  rw [← hsame] at hprint hmode
  obtain ⟨w', hstore, hsettled, helse, harguments⟩ :=
    storeEntries_completes hsaved.settled hprint hmode
  refine ⟨y, w', es ++ [], ?_, ?_, ?_, hsettled.row, ?_, p, ?_, ?_, ?_⟩
  · rw [hinsert, hrun, Prog.Outcome.andThen_ok, hargs, hkwargs, hstore]
  · rw [hsaved.id, h.id]
    exact h.free
  · rw [hsaved.name, h.name]
  · have hsaveElse := hsaved.elsewhere
    rw [← hsaved.id] at hsaveElse
    exact hsaveElse.trans helse
  · rw [h.args, hargs]
  · rw [h.kwargs, hkwargs]
  · rw [harguments, hsaved.arguments]

theorem insert_completes (h : Accepts env d ty w args kwargs x)
    (hc : Completes env x args kwargs w) :
    ∃ y w' es, (d.insert env ty).run w = ⟨.ok y, w', es⟩ ∧ Inserted env d w y w' := by
  obtain ⟨t, hclean, hinsert⟩ := run_insert h
  obtain ⟨p, hargs, hkwargs, hprint, hmode⟩ := hc
  by_cases hjob : HasJob env x w
  · obtain ⟨y, w₁, es, hrun, hsaved, hpending⟩ := save_hasJob hclean hjob
    exact insert_saved h hinsert hrun hsaved hargs hkwargs hprint (.inl hpending)
  · obtain ⟨hi, hv⟩ := hmode.resolve_left hjob
    obtain ⟨w₁, hrun, hsaved, hi'⟩ := save_jobless hclean (not_or.1 hjob).1 hi hprint
    exact insert_saved h hinsert hrun hsaved hargs hkwargs hprint (.inr ⟨hi', hv⟩)

/-- An import that raises after the row was saved leaves it. -/
theorem insert_unfinished (h : Accepts env d ty w args kwargs x) {t y : Task} {w₁ : World}
    {es : List Event} (hinsert : (d.insert env ty).run w
      = ((t.save env true true).run w).andThen (storeEntries env args kwargs))
    (hrun : (t.save env true true).run w = ⟨.ok y, w₁, es⟩) (hsaved : SavedAs env x y w w₁)
    (hmode : y.Pending w₁ ∨ Idle env y w₁)
    (hc : ¬ ∃ p : Arguments, args = p.1.map .ok ∧ kwargs = p.2.map .ok ∧
      valuesError env (argumentsOf x.id w) = none ∧
      (y.Pending w₁ ∨ valuesError env ((argumentsOf x.id w).append p) = none)) :
    ∃ e, ((d.insert env ty).run w).val = .error e ∧
      ((d.insert env ty).exec w).tasks.find? (newId d w) ≠ none ∧
      SameElsewhere (newId d w) w ((d.insert env ty).exec w) := by
  have hsame : argumentsOf y.id w₁ = argumentsOf x.id w := by
    rw [hsaved.arguments, hsaved.id]
  have hid : y.id = newId d w := hsaved.id.trans h.id
  rw [← hsame] at hc
  obtain ⟨e, he⟩ := storeEntries_raises hsaved.settled hmode hc
  have hsteady : Steady env y w₁ ((storeEntries env args kwargs y).exec w₁) :=
    Steady.storeEntries ⟨hsaved.settled, hmode, fun _ _ => rfl⟩
  have hexec : (d.insert env ty).exec w = (storeEntries env args kwargs y).exec w₁ := by
    rw [Prog.exec, hinsert, hrun, Prog.Outcome.andThen_ok]
    rfl
  refine ⟨e, ?_, ?_, ?_⟩
  · rw [hinsert, hrun, Prog.Outcome.andThen_ok, he]
  · rw [hexec, ← hid, hsteady.settled.row]
    simp
  · have hfirst := hsaved.elsewhere
    have hrest := hsteady.elsewhere
    rw [h.id] at hfirst
    rw [hid] at hrest
    rw [hexec]
    exact hfirst.trans hrest

theorem insert_breaks (h : Accepts env d ty w args kwargs x)
    (hc : ¬ Completes env x args kwargs w) :
    ∃ e, ((d.insert env ty).run w).val = .error e ∧
      ((d.insert env ty).exec w).tasks.find? (newId d w) ≠ none ∧
      SameElsewhere (newId d w) w ((d.insert env ty).exec w) := by
  obtain ⟨t, hclean, hinsert⟩ := run_insert h
  by_cases hjob : HasJob env x w
  · obtain ⟨y, w₁, es, hrun, hsaved, hpending⟩ := save_hasJob hclean hjob
    refine insert_unfinished h hinsert hrun hsaved (.inl hpending) ?_
    rintro ⟨p, hargs, hkwargs, hprint, -⟩
    exact hc ⟨p, hargs, hkwargs, hprint, .inl hjob⟩
  · by_cases hquiet : Idle env x.forgotten w ∧ valuesError env (argumentsOf x.id w) = none
    · obtain ⟨hi, hprint⟩ := hquiet
      obtain ⟨w₁, hrun, hsaved, hi'⟩ := save_jobless hclean (not_or.1 hjob).1 hi hprint
      refine insert_unfinished h hinsert hrun hsaved (.inr hi') ?_
      rintro ⟨p, hargs, hkwargs, -, hmode⟩
      have hv := hmode.resolve_left fun hp => not_idle_of_pending hp hi'
      exact hc ⟨p, hargs, hkwargs, hprint, .inr ⟨hi, hv⟩⟩
    · -- the save itself raises, after it has stored the row
      obtain ⟨e, w', he, hrow, helse⟩ := save_stops hclean hjob hquiet
      have hrun : (d.insert env ty).run w = ⟨.error e, w', []⟩ := by
        rw [hinsert, he, Prog.Outcome.andThen_error]
      rw [h.id] at hrow helse
      refine ⟨e, ?_, ?_, ?_⟩
      · rw [hrun]
      · rw [Prog.exec_eq_of_run hrun]
        exact hrow
      · rw [Prog.exec_eq_of_run hrun]
        exact helse

end Insert

/-! ## The whole call -/

/-- The rows of the tasks and of their arguments, and the jobs that wait, are as before. -/
structure Unchanged (w w' : World) : Prop where
  tasks : w'.tasks.rows = w.tasks.rows
  taskArgs : w'.taskArgs = w.taskArgs
  taskKwargs : w'.taskKwargs = w.taskKwargs
  pending : ∀ q n, Waits w' q n ↔ Waits w q n

/-- The arguments under the primary key of a new row: those of a task that had it are deleted with
it. -/
def argumentsLeft (id : Nat) (w : World) : Arguments :=
  if (w.tasks.find? id).isSome then ([], []) else argumentsOf id w

/-- The task `x` is new, and stored with all arguments of the dictionary; a task that had its name
is gone (only this one may have had its primary key), and all other rows are as before. -/
structure Created (d : TaskEntry) (w : World) (x : Task) (w' : World) : Prop where
  unknown : ∀ t, w.tasks.find? x.id = some t → w.tasks.withName x.name = some t
  row : w'.tasks.find? x.id = some x
  name : d.name = some x.name
  arguments : ∃ p : Arguments, d.callableArgs = some (p.1.map .ok) ∧
    d.callableKwargs = some (p.2.map .ok) ∧
    argumentsOf x.id w' = (argumentsLeft x.id w).append p
  replaced : ∀ t, w.tasks.withName x.name = some t → t.id ≠ x.id → w'.tasks.find? t.id = none
  others : ∀ i, i ≠ x.id → (∀ t, w.tasks.withName x.name = some t → i ≠ t.id) →
    w'.tasks.find? i = w.tasks.find? i

/-- The world after the deletion of a task. -/
def withoutTask (env : Env) (w : World) (t : Task) : World :=
  (unscheduledWorld env w t).deleteTask t.id

/-- Whether the call can be done as a whole or not at all. A dictionary without a name or a known
model does nothing. A new task is rejected before its row is stored, or all goes well. A task that
is to be replaced cannot be deleted, or all goes well once it is. -/
def Fit (env : Env) (d : TaskEntry) (update : Bool) (w : World) : Prop :=
  ∀ name model ty, d.name = some name → d.model = some model → getTaskType model = .ok ty →
    match w.tasks.withName name with
    | none => Rejected env d ty w ∨ Insertable env d ty w
    | some t => update = true → t.describeError env w ≠ none ∨ Stuck env t ∨
        Insertable env d ty (withoutTask env w t)

theorem argumentsLeft_of_free {w : World} {id : Nat} (h : w.tasks.find? id = none) :
    argumentsLeft id w = argumentsOf id w := by
  unfold argumentsLeft
  rw [h]
  rfl

theorem Unchanged.refl (w : World) : Unchanged w w := ⟨rfl, rfl, rfl, fun _ _ => Iff.rfl⟩

theorem Unchanged.find? {w w' : World} (h : Unchanged w w') (i : Nat) :
    w'.tasks.find? i = w.tasks.find? i := by
  unfold TaskTable.find?
  rw [h.tasks]

section Call

variable {env : Env} {d : TaskEntry} {update : Bool} {w : World} {name : String} {ty : TaskType}
  {t : Task}

/-- The dictionary has a name and a known model. -/
structure Named (d : TaskEntry) (name : String) (ty : TaskType) : Prop where
  name : d.name = some name
  model : ∃ model, d.model = some model ∧ getTaskType model = .ok ty

theorem run_createTask (h : Named d name ty) : (d.createTask env update).run w
    = (match w.tasks.withName name with
      | none => do
          let task ← d.insert env ty
          pure (some task)
      | some t =>
          if update then do
            t.describe env
            t.delete env
            let task ← d.insert env ty
            pure (some task)
          else do
            t.describe env
            pure none : Py (Option Task)).run w := by
  obtain ⟨model, hmodel, hty⟩ := h.model
  unfold TaskEntry.createTask
  rw [h.name]
  dsimp only
  rw [Prog.run_bind, Prog.run_read, Prog.Outcome.andThen_ok, hmodel]
  dsimp only
  rw [hty]
  rfl

/-- Without a name and a model there is no task to create. -/
theorem run_createTask_unnamed (h : ∀ name ty, ¬ Named d name ty) :
    ∃ e, (d.createTask env update).run w = ⟨.error e, w, []⟩ := by
  unfold TaskEntry.createTask
  cases hname : d.name with
  | none => exact ⟨_, rfl⟩
  | some name =>
      dsimp only
      rw [Prog.run_bind, Prog.run_read, Prog.Outcome.andThen_ok]
      cases hmodel : d.model with
      | none => exact ⟨_, rfl⟩
      | some model =>
          dsimp only
          cases hty : getTaskType model with
          | error e => exact ⟨e, rfl⟩
          | ok ty => exact absurd ⟨hname, model, hmodel, hty⟩ (h name ty)

end Call

/-! ### No task has the name -/

section New

variable {env : Env} {d : TaskEntry} {update : Bool} {w : World} {name : String} {ty : TaskType}

theorem not_insertable {w : World} (hrejected : ¬ Rejected env d ty w)
    (hinsertable : ¬ Insertable env d ty w) : ∃ args kwargs x,
      Accepts env d ty w args kwargs x ∧ ¬ Completes env x args kwargs w := by
  unfold Rejected at hrejected
  push Not at hrejected
  obtain ⟨args, kwargs, x, haccepts⟩ := hrejected
  exact ⟨args, kwargs, x, haccepts, fun hc => hinsertable ⟨args, kwargs, x, haccepts, hc⟩⟩

theorem run_createTask_new (h : Named d name ty) (hnone : w.tasks.withName name = none) :
    (d.createTask env update).run w
      = ((d.insert env ty).run w).andThen fun x => pure (some x) := by
  rw [run_createTask h, hnone]
  dsimp only
  rw [Prog.run_bind]

end New

/-! ### A task is replaced -/

section Replace

variable {env : Env} {d : TaskEntry} {w : World} {name : String} {ty : TaskType} {t : Task}

theorem mem_of_withName (h : w.tasks.withName name = some t) : t ∈ w.tasks.rows :=
  List.mem_of_find?_eq_some h

theorem find?_of_withName (h : w.tasks.withName name = some t) :
    w.tasks.find? t.id = some t := w.tasks.find?_of_mem (mem_of_withName h)

theorem run_delete (h : ¬ Stuck env t) :
    (t.delete env).run w = ⟨.ok (), withoutTask env w t, []⟩ := by
  unfold Task.delete
  rw [Prog.run_bind, run_unschedule h]
  rfl

theorem find?_withoutTask (i : Nat) : (withoutTask env w t).tasks.find? i
    = if i = t.id then none else w.tasks.find? i := by
  unfold withoutTask
  rw [find?_deleteTask, find?_unscheduledWorld]
  by_cases hi : i = t.id
  · rw [if_pos hi, if_pos hi]
  · rw [if_neg hi, if_neg hi, if_neg hi]

theorem argumentsOf_deletedWorld (q : Queue) (n : JobName) (w : World) (id : Nat) :
    argumentsOf id (q.deletedWorld env n true w) = argumentsOf id w := by
  unfold Queue.deletedWorld
  rw [if_pos rfl]
  split
  · rfl
  · split
    · rfl
    · unfold Queue.expireIn
      split <;> rfl

theorem argumentsOf_withoutTask {i : Nat} (hi : i ≠ t.id) :
    argumentsOf i (withoutTask env w t) = argumentsOf i w := by
  have hdelete : argumentsOf i (withoutTask env w t) = argumentsOf i (unscheduledWorld env w t) := by
    show (Function.update (unscheduledWorld env w t).taskArgs t.id [] i,
      Function.update (unscheduledWorld env w t).taskKwargs t.id [] i) = _
    rw [Function.update_of_ne hi, Function.update_of_ne hi]
    rfl
  rw [hdelete]
  unfold unscheduledWorld
  split
  · exact argumentsOf_deletedWorld ..
  · rfl

/-- The task is deleted, and then the dictionary inserted. -/
theorem run_createTask_update (h : Named d name ty) (ht : w.tasks.withName name = some t)
    (hprint : t.describeError env w = none) (hstuck : ¬ Stuck env t) :
    (d.createTask env true).run w
      = ((d.insert env ty).run (withoutTask env w t)).andThen fun x => pure (some x) := by
  rw [run_createTask h, ht]
  dsimp only
  rw [if_pos rfl, Prog.run_bind, Task.run_describe, hprint, Prog.Outcome.andThen_ok, Prog.run_bind,
    run_delete hstuck, Prog.Outcome.andThen_ok, Prog.run_bind]
  rfl

/-- After the deletion its arguments are gone, and those of the other rows as they were. -/
theorem argumentsOf_withoutTask_eq {i : Nat} (ht : w.tasks.find? t.id = some t)
    (hfree : (withoutTask env w t).tasks.find? i = none) :
    argumentsOf i (withoutTask env w t) = argumentsLeft i w := by
  rw [find?_withoutTask] at hfree
  by_cases hi : i = t.id
  · subst hi
    unfold argumentsLeft
    rw [ht]
    show (Function.update (unscheduledWorld env w t).taskArgs t.id [] t.id,
      Function.update (unscheduledWorld env w t).taskKwargs t.id [] t.id) = _
    rw [Function.update_self, Function.update_self]
    rfl
  · rw [if_neg hi] at hfree
    rw [argumentsOf_withoutTask hi, argumentsLeft_of_free hfree]

theorem created_of_inserted (h : Named d name ty) (ht : w.tasks.withName name = some t)
    {y : Task} {w' : World} (hdone : Inserted env d (withoutTask env w t) y w') :
    Created d w y w' := by
  have hname : y.name = name := by
    rw [hdone.name, h.name, Option.getD_some]
  refine ⟨?_, hdone.row, ?_, ?_, ?_, ?_⟩
  · intro s hs
    have hfree := hdone.free
    rw [find?_withoutTask] at hfree
    by_cases hi : y.id = t.id
    · rw [hi, find?_of_withName ht] at hs
      rw [hname, ht]
      exact hs
    · rw [if_neg hi, hs] at hfree
      cases hfree
  · rw [h.name, hname]
  · rw [← argumentsOf_withoutTask_eq (find?_of_withName ht) hdone.free]
    exact hdone.arguments
  · intro t' ht' hne
    rw [hname, ht] at ht'
    cases ht'
    rw [hdone.elsewhere t.id hne, find?_withoutTask, if_pos rfl]
  · intro i hi hother
    have hold : i ≠ t.id := hother t (by rw [hname, ht])
    rw [hdone.elsewhere i hi, find?_withoutTask, if_neg hold]

end Replace

/-- The one text that is read as a time stands for the fourth second. -/
def textEnv : Env :=
  { Sample.env with
    fromisoformat := fun s => if s = "1970-01-01T00:00:04+00:00" then some 4000000 else none }

/-- A one-off task of that time, as `to_dict` writes it. -/
def onceEntry : TaskEntry :=
  ((Sample.onceTask 4000000).dict [] [] (some 4000000)).entry (some "1970-01-01T00:00:04+00:00")

end DailyScheduler.Import
