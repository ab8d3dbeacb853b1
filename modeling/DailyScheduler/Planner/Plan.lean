import DailyScheduler.Planner.ProjectViews

set_option autoImplicit false

/-! # The plan of `generate_schedule`

Which sessions `generate_schedule` comes to, and where it fails, depends on the project, its tasks
and their schedules only, not on the personal tasks. The *plan* of a request is the list of what it
comes to (`GenerateStep`) together with the exception that ends it, if one does.
`run_generateScheduleView` says that a request carries out its plan step by step and keeps what
was done when the plan ends in an exception.
-/

namespace DailyScheduler

open AtomicProg Calendar

/-- What the loops come to: a session, or the end of the sessions of a schedule, when the project
task is marked. -/
inductive GenerateStep where
  | session (s : Session)
  | mark (t : ProjectTask)
  deriving DecidableEq

/-- The steps in their order, and the exception after them, if there is one. -/
abbrev Plan := List GenerateStep × Option ViewError

/-- One plan and then another. -/
def Plan.andThen (a b : Plan) : Plan :=
  match a.2 with
  | some x => (a.1, some x)
  | none => (a.1 ++ b.1, b.2)

/-- The plan that fails at once. -/
def Plan.fail (x : ViewError) : Plan := ([], some x)

/-- The plan of one step. -/
def Plan.step (s : GenerateStep) : Plan := ([s], none)

/-! ## Plans of the loops -/

/-- The plan of `generateWeeks`. -/
def weeksPlan (p : Project) (t : ProjectTask) (s : ProjectSchedule) : Nat → Date → Plan
  | 0, _ => ([], none)
  | rounds + 1, current =>
      if current.ordinal ≤ p.endDate.ordinal then
        match targetDate p s current with
        | .error x => .fail x
        | .ok target =>
            if target.ordinal > p.endDate.ordinal then ([], none)
            else match sessionOn t s target with
              | .error x => .fail x
              | .ok session => (Plan.step (.session session)).andThen
                  (match orOverflow (target.addDays 1) with
                    | .error x => .fail x
                    | .ok next => weeksPlan p t s rounds next)
      else ([], none)

/-- The plan of `generateSchedules`. -/
def schedulesPlan (p : Project) (t : ProjectTask) : List ProjectSchedule → Plan
  | [] => ([], none)
  | s :: l => (weeksPlan p t s s.weeks p.startDate).andThen
      ((Plan.step (.mark t)).andThen (schedulesPlan p t l))

/-- The plan of `generateTasks`. -/
def tasksPlan (db : Planner) (p : Project) : List ProjectTask → Plan
  | [] => ([], none)
  | t :: l => (schedulesPlan p t (db.schedulesOf t)).andThen (tasksPlan db p l)

/-- The plan of a request to generate the schedule of a project. -/
def generatePlan (env : PlannerEnv) (db : Planner) (p : Project) (body : String) : Plan :=
  match readTaskIds env body with
  | .error x => .fail x
  | .ok ids => tasksPlan db p (db.tasksOf p ids)

/-! ## What a plan consists of -/

/-- A session is that of an active schedule of one of the tasks; a mark is about one of them. -/
def FromTasks (db : Planner) (tasks : List ProjectTask) : GenerateStep → Prop
  | .session session => ∃ t ∈ tasks, ∃ s ∈ db.schedulesOf t, ∃ target,
      sessionOn t s target = .ok session
  | .mark t => t ∈ tasks

theorem mem_andThen {a b : Plan} {s : GenerateStep} (h : s ∈ (a.andThen b).1) :
    s ∈ a.1 ∨ s ∈ b.1 := by
  unfold Plan.andThen at h
  split at h
  · exact .inl h
  · exact List.mem_append.1 h

theorem mem_weeksPlan {p : Project} {t : ProjectTask} {s : ProjectSchedule} {rounds : Nat}
    {current : Date} {step : GenerateStep} (h : step ∈ (weeksPlan p t s rounds current).1) :
    ∃ target session, sessionOn t s target = .ok session ∧ step = .session session := by
  induction rounds generalizing current with
  | zero => cases h
  | succ rounds ih =>
      unfold weeksPlan at h
      split at h
      · split at h
        · cases h
        · rename_i target _
          split at h
          · cases h
          · split at h
            · cases h
            · rename_i session hsession
              rcases mem_andThen h with h | h
              · exact ⟨target, session, hsession, List.mem_singleton.1 h⟩
              · split at h
                · cases h
                · exact ih h
      · cases h

theorem mem_schedulesPlan {p : Project} {t : ProjectTask} {l : List ProjectSchedule}
    {step : GenerateStep} (h : step ∈ (schedulesPlan p t l).1) :
    step = .mark t ∨ ∃ s ∈ l, ∃ target session,
      sessionOn t s target = .ok session ∧ step = .session session := by
  induction l with
  | nil => cases h
  | cons s l ih =>
      rcases mem_andThen h with h | h
      · exact .inr ⟨s, List.mem_cons_self, mem_weeksPlan h⟩
      · rcases mem_andThen h with h | h
        · exact .inl (List.mem_singleton.1 h)
        · refine (ih h).imp id ?_
          rintro ⟨s', hs', hsession⟩
          exact ⟨s', List.mem_cons_of_mem s hs', hsession⟩

theorem mem_tasksPlan {db : Planner} {p : Project} {l tasks : List ProjectTask}
    (hl : ∀ t ∈ l, t ∈ tasks) {step : GenerateStep} (h : step ∈ (tasksPlan db p l).1) :
    FromTasks db tasks step := by
  induction l with
  | nil => cases h
  | cons t l ih =>
      rcases mem_andThen h with h | h
      · have ht := hl t List.mem_cons_self
        rcases mem_schedulesPlan h with rfl | ⟨s, hs, target, session, hsession, rfl⟩
        · exact ht
        · exact ⟨t, ht, s, hs, target, hsession⟩
      · exact ih (fun t' ht' => hl t' (List.mem_cons_of_mem t ht')) h

theorem mem_generatePlan {env : PlannerEnv} {db : Planner} {p : Project} {body : String}
    {step : GenerateStep} (h : step ∈ (generatePlan env db p body).1) :
    ∃ ids, readTaskIds env body = .ok ids ∧ FromTasks db (db.tasksOf p ids) step := by
  unfold generatePlan at h
  cases hids : readTaskIds env body with
  | error x =>
      rw [hids] at h
      cases h
  | ok ids =>
      rw [hids] at h
      exact ⟨ids, rfl, mem_tasksPlan (fun _ => id) h⟩

/-- The end time of a session is its start time plus its length, on a clock. -/
theorem sessionOn_endTime {t : ProjectTask} {s : ProjectSchedule} {target : Date}
    {session : Session} (h : sessionOn t s target = .ok session) :
    session.startTime = s.startTime ∧ timedeltaHours s.durationHours = .ok session.length ∧
      session.endTime.micros = (session.startTime.micros + session.length) % dayLength := by
  unfold sessionOn at h
  cases hd : timedeltaHours s.durationHours with
  | error x =>
      rw [hd] at h
      cases h
  | ok d =>
      cases hi : (DateTime.mk target s.startTime).add d with
      | none =>
          rw [hd] at h
          simp only [bind, Except.bind, hi] at h
          cases h
      | some i =>
          rw [hd] at h
          simp only [bind, Except.bind, hi, orOverflow, pure, Except.pure] at h
          cases h
          exact ⟨rfl, rfl, (DateTime.add_eq_some hi).2⟩

/-! ## Carrying a plan out -/

/-- The database, the events and the answer so far. -/
structure Progress where
  db : Planner
  events : List PlannerEvent
  acc : Generated

namespace Progress

/-- A session meets a conflict or is created; a mark is stored. -/
def perform (p : Project) (g : Progress) : GenerateStep → Progress
  | .session s =>
      if g.db.conflicting s then
        { g with acc := { g.acc with conflicts := g.acc.conflicts ++ [s.conflict] } }
      else
        { db := g.db.createTask (s.row p)
          events := g.events ++ [.session g.db.personalTasks.next s.length]
          acc := { g.acc with created := g.acc.created + 1 } }
  | .mark t => { g with db := g.db.saveScheduled t }

variable {p : Project}

theorem perform_projectSchedules (g : Progress) (s : GenerateStep) :
    (g.perform p s).db.projectSchedules = g.db.projectSchedules := by
  cases s with
  | session s =>
      simp only [perform]
      split <;> rfl
  | mark t => rfl

theorem foldl_perform_projectSchedules (l : List GenerateStep) (g : Progress) :
    (l.foldl (perform p) g).db.projectSchedules = g.db.projectSchedules := by
  induction l generalizing g with
  | nil => rfl
  | cons s l ih => exact (ih _).trans (g.perform_projectSchedules s)

/-- The events so far do not matter for what follows. -/
theorem foldl_perform_events (l : List GenerateStep) (db : Planner) (es : List PlannerEvent)
    (acc : Generated) :
    l.foldl (perform p) ⟨db, es, acc⟩
      = { l.foldl (perform p) ⟨db, [], acc⟩ with
          events := es ++ (l.foldl (perform p) ⟨db, [], acc⟩).events } := by
  induction l generalizing db es acc with
  | nil => simp
  | cons s l ih =>
      cases s with
      | session s =>
          simp only [List.foldl_cons, perform]
          split
          · exact ih _ _ _
          · rw [ih _ (es ++ _), ih _ ([] ++ _)]
            simp
      | mark t => exact ih _ _ _

end Progress

/-- How a plan ends. -/
def Plan.outcome (p : Project) (plan : Plan) (db : Planner) (acc : Generated) :
    Prog.Outcome Planner PlannerEvent ViewError Generated :=
  let g := plan.1.foldl (Progress.perform p) ⟨db, [], acc⟩
  ⟨match plan.2 with
    | none => .ok g.acc
    | some x => .error x, g.db, g.events⟩

/-- Wherever the schedules are those of `db₀`, the part of the view carries out the plan. -/
def Follows (p : Project) (db₀ : Planner) (v : Generated → View Generated) (plan : Plan) : Prop :=
  ∀ acc db, db.projectSchedules = db₀.projectSchedules → (v acc).run db = plan.outcome p db acc

namespace Follows

variable {p : Project} {db₀ : Planner} {v w : Generated → View Generated} {a b : Plan}

theorem nil : Follows p db₀ (fun acc => .ret acc) ([], none) :=
  fun _ _ _ => rfl

theorem fail (x : ViewError) : Follows p db₀ (fun _ => .raise x) (.fail x) :=
  fun _ _ _ => rfl

/-- Two parts, one after the other. -/
theorem bind (hv : Follows p db₀ v a) (hw : Follows p db₀ w b) :
    Follows p db₀ (fun acc => v acc >>= w) (a.andThen b) := by
  intro acc db hdb
  rw [Prog.run_bind, hv acc db hdb]
  obtain ⟨steps, x⟩ := a
  cases x with
  | some x => rfl
  | none =>
      have hsame : (steps.foldl (Progress.perform p) ⟨db, [], acc⟩).db.projectSchedules
          = db₀.projectSchedules :=
        (Progress.foldl_perform_projectSchedules steps _).trans hdb
      have hrest := hw (steps.foldl (Progress.perform p) ⟨db, [], acc⟩).acc
        (steps.foldl (Progress.perform p) ⟨db, [], acc⟩).db hsame
      have hevents := Progress.foldl_perform_events (p := p) b.1
        (steps.foldl (Progress.perform p) ⟨db, [], acc⟩).db
        (steps.foldl (Progress.perform p) ⟨db, [], acc⟩).events
        (steps.foldl (Progress.perform p) ⟨db, [], acc⟩).acc
      simp only [Plan.outcome, Plan.andThen, Prog.Outcome.andThen, List.foldl_append]
      rw [hrest, show steps.foldl (Progress.perform p) ⟨db, [], acc⟩
        = ⟨(steps.foldl (Progress.perform p) ⟨db, [], acc⟩).db,
            (steps.foldl (Progress.perform p) ⟨db, [], acc⟩).events,
            (steps.foldl (Progress.perform p) ⟨db, [], acc⟩).acc⟩ from rfl, hevents]
      rfl

theorem session (s : Session) : Follows p db₀ (bookSession p s) (.step (.session s)) := by
  intro acc db _
  simp only [bookSession, Prog.run_bind, Prog.run_read, Prog.Outcome.andThen_ok, Plan.outcome,
    Plan.step, List.foldl_cons, List.foldl_nil, Progress.perform]
  split <;> simp [Prog.run_bind]

theorem mark (t : ProjectTask) :
    Follows p db₀ (fun acc => markScheduled t >>= fun _ => .ret acc) (.step (.mark t)) :=
  fun _ _ _ => rfl

end Follows

theorem follows_generateWeeks (p : Project) (t : ProjectTask) (s : ProjectSchedule)
    (db₀ : Planner) (rounds : Nat) (current : Date) :
    Follows p db₀ (generateWeeks p t s rounds current) (weeksPlan p t s rounds current) := by
  induction rounds generalizing current with
  | zero => exact Follows.nil
  | succ rounds ih =>
      show Follows p db₀ (fun acc => generateWeeks p t s (rounds + 1) current acc) _
      simp only [generateWeeks, weeksPlan]
      by_cases hcurrent : current.ordinal ≤ p.endDate.ordinal
      · simp only [hcurrent, if_true]
        cases targetDate p s current with
        | error x => exact Follows.fail x
        | ok target =>
            simp only [View.ofExcept, Prog.ret_bind]
            by_cases htarget : target.ordinal > p.endDate.ordinal
            · simp only [htarget, if_true]
              exact Follows.nil
            · simp only [htarget, if_false]
              cases sessionOn t s target with
              | error x => exact Follows.fail x
              | ok session =>
                  simp only [Prog.ret_bind]
                  refine Follows.bind (Follows.session session) ?_
                  cases orOverflow (target.addDays 1) with
                  | error x => exact Follows.fail x
                  | ok next => exact ih next
      · simp only [hcurrent, if_false]
        exact Follows.nil

theorem follows_generateSchedules (p : Project) (t : ProjectTask) (db₀ : Planner)
    (l : List ProjectSchedule) :
    Follows p db₀ (generateSchedules p t l) (schedulesPlan p t l) := by
  induction l with
  | nil => exact Follows.nil
  | cons s l ih =>
      have hweeks := follows_generateWeeks p t s db₀ s.weeks p.startDate
      have hrest := (@Follows.mark p db₀ t).bind ih
      intro acc db hdb
      exact (hweeks.bind hrest) acc db hdb

theorem follows_generateTasks (p : Project) (db₀ : Planner) (l : List ProjectTask) :
    Follows p db₀ (generateTasks p l) (tasksPlan db₀ p l) := by
  induction l with
  | nil => exact Follows.nil
  | cons t l ih =>
      intro acc db hdb
      have hread : db.schedulesOf t = db₀.schedulesOf t := by
        unfold Planner.schedulesOf
        rw [hdb]
      have hboth := (follows_generateSchedules p t db₀ (db₀.schedulesOf t)).bind ih acc db hdb
      unfold generateTasks tasksPlan
      rw [Prog.run_bind, Prog.run_read, Prog.Outcome.andThen_ok, hread]
      exact hboth

/-- What a request answers when its plan is carried out. -/
def Plan.answer (plan : Plan) (g : Progress) : Answer Generated :=
  match plan.2 with
  | none => .success g.acc
  | some x => .failure x

/-- The plan of a request, carried out. -/
def generated (env : PlannerEnv) (db : Planner) (p : Project) (body : String) : Progress :=
  (generatePlan env db p body).1.foldl (Progress.perform p) ⟨db, [], ⟨0, []⟩⟩

/-- The body of the view, up to the exception that the view catches. -/
theorem run_generateScheduleBody (env : PlannerEnv) (db : Planner) (p : Project) (body : String) :
    (generateScheduleBody env p body).run db
      = ⟨match (generatePlan env db p body).2 with
          | none => .ok (.success (generated env db p body).acc)
          | some x => .error x, (generated env db p body).db, (generated env db p body).events⟩ := by
  unfold generateScheduleBody generated generatePlan
  cases readTaskIds env body with
  | error x => rfl
  | ok ids =>
      have htasks := follows_generateTasks p db (db.tasksOf p ids) ⟨0, []⟩ db rfl
      simp only [View.ofExcept, Prog.ret_bind, Prog.run_bind, Prog.run_read,
        Prog.Outcome.andThen_ok, htasks, Plan.outcome]
      cases (tasksPlan db p (db.tasksOf p ids)).2 <;> simp

/-- **A request carries out its plan.** What was done before an exception stays. -/
theorem run_generateScheduleView (env : PlannerEnv) {db : Planner} {projectId : Nat} {p : Project}
    (hp : db.projects.find? projectId = some p) (body : String) :
    (generateScheduleView env projectId body).run db
      = ⟨.ok ((generatePlan env db p body).answer (generated env db p body)),
          (generated env db p body).db, (generated env db p body).events⟩ := by
  unfold generateScheduleView
  rw [Prog.run_bind, Prog.run_read, Prog.Outcome.andThen_ok, hp]
  simp only [Prog.run_tryCatch, run_generateScheduleBody, Plan.answer]
  cases (generatePlan env db p body).2 <;> simp

/-- Without the project nothing is done. -/
theorem run_generateScheduleView_none (env : PlannerEnv) {db : Planner} {projectId : Nat}
    (hp : db.projects.find? projectId = none) (body : String) :
    (generateScheduleView env projectId body).run db = ⟨.error .http404, db, []⟩ := by
  unfold generateScheduleView
  rw [Prog.run_bind, Prog.run_read, Prog.Outcome.andThen_ok, hp]
  simp

end DailyScheduler
