import DailyScheduler.Planner.Writes

set_option autoImplicit false

/-! # Sessions and real time

A task occupies an interval of real time. For a stored task it is read off its clock times; a task
that does not end after it starts ends on the next day. For a session that `generate_schedule`
created it begins at its start time and lasts for the schedule's duration.

The view's query compares clock times on one date. For intervals that stay on their date this finds
every overlap (`conflicting_of_overlap`); where one of the two runs to midnight or beyond it may miss
one. A request is safe when the query sees every overlap that the schedules plan (`QuerySuffices`):
this is about the schedules and the tasks that are stored before the request.
-/

namespace DailyScheduler

open AtomicProg Calendar

/-! ## Intervals -/

namespace PersonalTask

variable (t : PersonalTask)

/-- When the task starts. -/
def start : Int := (DateTime.mk t.date t.startTime).micros

/-- When the task ends, by its clock times. -/
def clockEnd : Int :=
  if t.startTime.micros < t.endTime.micros then t.date.ordinal * dayLength + t.endTime.micros
  else (t.date.ordinal + 1) * dayLength + t.endTime.micros

end PersonalTask

/-- The length of the session created as the row `id`. -/
def sessionLength (id : Nat) : List PlannerEvent → Option Int
  | [] => none
  | .session id' length :: es => if id' = id then some length else sessionLength id es

/-- When a task ends: a created session when its length is over. -/
def finish (es : List PlannerEvent) (t : PersonalTask) : Int :=
  match sessionLength t.id es with
  | some length => t.start + length
  | none => t.clockEnd

/-- No two tasks that are no breaks overlap in real time. -/
def NoOverlap (es : List PlannerEvent) (db : Planner) : Prop :=
  ∀ t ∈ db.personalTasks.rows, ∀ t' ∈ db.personalTasks.rows, t.isBreak = false →
    t'.isBreak = false → t.id ≠ t'.id → ¬ (t.start < finish es t' ∧ t'.start < finish es t)

instance (es : List PlannerEvent) (db : Planner) : Decidable (NoOverlap es db) :=
  inferInstanceAs (Decidable (∀ t ∈ db.personalTasks.rows, ∀ t' ∈ db.personalTasks.rows,
    t.isBreak = false → t'.isBreak = false → t.id ≠ t'.id →
    ¬ (t.start < finish es t' ∧ t'.start < finish es t)))

/-- The task ends on its date, before midnight, and after it starts. -/
def OnDate (es : List PlannerEvent) (t : PersonalTask) : Prop :=
  t.startTime.micros < t.endTime.micros ∧
    finish es t = t.date.ordinal * dayLength + t.endTime.micros

namespace Session

variable (s : Session)

def start : Int := (DateTime.mk s.date s.startTime).micros

def finish : Int := s.start + s.length

/-- The sessions overlap in real time. -/
def Overlaps (s' : Session) : Prop := s.start < s'.finish ∧ s'.start < s.finish

instance (s' : Session) : Decidable (s.Overlaps s') :=
  inferInstanceAs (Decidable (s.start < s'.finish ∧ s'.start < s.finish))

/-- The session has a positive length and ends on its date, before midnight. -/
def OnDate : Prop := 0 < s.length ∧ s.startTime.micros + s.length < dayLength

/-- The end time is the start time plus the length, on a clock. -/
def Clocked : Prop := s.endTime.micros = (s.startTime.micros + s.length) % dayLength

variable {s}

theorem endTime_of_onDate (hs : s.Clocked) (h : s.OnDate) :
    s.endTime.micros = s.startTime.micros + s.length := by
  have hpos := s.startTime.nonneg
  have hlength := h.1
  rw [hs, Int.emod_eq_of_lt (by omega) h.2]

end Session

/-- On one date the query finds every overlap. -/
theorem conflicting_of_overlap {es : List PlannerEvent} {db : Planner} {s : Session}
    {t : PersonalTask} (hclock : s.Clocked) (hs : s.OnDate) (ht : OnDate es t)
    (hmem : t ∈ db.personalTasks.rows) (hbreak : t.isBreak = false)
    (hover : t.start < s.finish ∧ s.start < finish es t) : db.conflicting s = true := by
  have hend := Session.endTime_of_onDate hclock hs
  obtain ⟨hbefore, hfinish⟩ := ht
  rw [hfinish] at hover
  have hday : dayLength = 86400000000 := rfl
  have ht0 := t.startTime.nonneg
  have ht1 := t.endTime.lt_day
  have hs0 := s.startTime.nonneg
  have hs1 := s.endTime.lt_day
  simp only [PersonalTask.start, Session.finish, Session.start, DateTime.micros, hday] at hover
  rw [hday] at ht1 hs1
  have hdate : t.date = s.date := by
    refine Date.ext_ordinal ?_
    omega
  unfold Planner.conflicting
  refine List.any_eq_true.2 ⟨t, hmem, decide_eq_true ⟨hdate, ?_, ?_, hbreak⟩⟩
  · rw [hdate] at hover
    omega
  · rw [hdate] at hover
    omega

/-! ## One step -/

/-- The rows that the events name exist already. -/
def Numbered (g : Progress) : Prop :=
  ∀ id length, .session id length ∈ g.events → id < g.db.personalTasks.next

/-- When the loops come to a session, each task that overlaps it, while one of the two runs to
midnight or beyond, is accompanied by a conflict that the query finds. -/
def Watched (g : Progress) : GenerateStep → Prop
  | .session s => ∀ t ∈ g.db.personalTasks.rows, t.isBreak = false →
      ¬ (s.OnDate ∧ OnDate g.events t) → t.start < s.finish ∧ s.start < finish g.events t →
      g.db.conflicting s = true
  | .mark _ => True

/-- The sessions of a plan have the end times their lengths give. -/
def ClockedStep : GenerateStep → Prop
  | .session s => s.Clocked
  | .mark _ => True

theorem sessionLength_append (id : Nat) (es : List PlannerEvent) (id' : Nat) (length : Int) :
    sessionLength id (es ++ [.session id' length])
      = (sessionLength id es).or (if id' = id then some length else none) := by
  induction es with
  | nil =>
      simp only [List.nil_append, sessionLength]
      rfl
  | cons e es ih =>
      obtain ⟨id'', length'⟩ := e
      simp only [List.cons_append, sessionLength]
      split
      · rfl
      · exact ih

theorem sessionLength_none {id : Nat} {es : List PlannerEvent}
    (h : ∀ length, .session id length ∉ es) : sessionLength id es = none := by
  induction es with
  | nil => rfl
  | cons e es ih =>
      obtain ⟨id', length⟩ := e
      have hne : id' ≠ id := by
        rintro rfl
        exact h length List.mem_cons_self
      simp only [sessionLength, hne, if_false]
      exact ih fun length' hmem => h length' (List.mem_cons_of_mem _ hmem)

section

variable {p : Project} {g : Progress} {s : Session}

/-- The stored row of a session. -/
def Session.stored (p : Project) (s : Session) (id : Nat) : PersonalTask := { s.row p with id := id }

theorem mem_createTask (t : PersonalTask) :
    t ∈ (g.db.createTask (s.row p)).personalTasks.rows ↔
      t ∈ g.db.personalTasks.rows ∨ t = s.stored p g.db.personalTasks.next :=
  Table.mem_insert _ _ _ _

/-- A new session changes the end of no stored task. -/
theorem finish_append {t : PersonalTask} (ht : t ∈ g.db.personalTasks.rows) :
    finish (g.events ++ [.session g.db.personalTasks.next s.length]) t = finish g.events t := by
  have hlt := g.db.personalTasks.fresh t ht
  have hne : ¬ g.db.personalTasks.next = t.id := by omega
  unfold finish
  rw [sessionLength_append, if_neg hne, Option.or_none]

/-- The new task ends when the session does. -/
theorem finish_stored (hg : Numbered g) :
    finish (g.events ++ [.session g.db.personalTasks.next s.length])
      (s.stored p g.db.personalTasks.next) = s.finish := by
  have hnone : sessionLength g.db.personalTasks.next g.events = none := by
    refine sessionLength_none fun length hmem => ?_
    have hlt := hg _ length hmem
    omega
  unfold finish
  show (match sessionLength g.db.personalTasks.next (g.events ++ _) with
    | some length => _
    | none => _) = _
  rw [sessionLength_append, hnone, if_pos rfl]
  rfl

/-- The query finds every task that overlaps a watched session. -/
theorem conflicting_of_watched (hclock : s.Clocked) (h : Watched g (.session s)) {t : PersonalTask}
    (ht : t ∈ g.db.personalTasks.rows) (hbreak : t.isBreak = false)
    (hover : t.start < s.finish ∧ s.start < finish g.events t) : g.db.conflicting s = true := by
  by_cases hdate : s.OnDate ∧ OnDate g.events t
  · exact conflicting_of_overlap hclock hdate.1 hdate.2 ht hbreak hover
  · exact h t ht hbreak hdate hover

/-- A session that is created overlaps no task, exactly if it was watched. -/
theorem noOverlap_create_iff (hg : Numbered g) (hclock : s.Clocked)
    (hno : NoOverlap g.events g.db) (hc : g.db.conflicting s = false) :
    NoOverlap (g.events ++ [.session g.db.personalTasks.next s.length])
        (g.db.createTask (s.row p)) ↔ Watched g (.session s) := by
  have hnew : (s.stored p g.db.personalTasks.next).start = s.start := rfl
  constructor
  · intro h t ht hbreak _ hover
    have hlt := g.db.personalTasks.fresh t ht
    refine absurd ?_ (h t ((mem_createTask t).2 (.inl ht)) (s.stored p g.db.personalTasks.next)
      ((mem_createTask _).2 (.inr rfl)) hbreak rfl (show t.id ≠ g.db.personalTasks.next by omega))
    rw [finish_stored hg, finish_append ht, hnew]
    exact hover
  · intro h
    -- a task that is not watched is on its date like the session, and the query would find it
    have hold : ∀ t ∈ g.db.personalTasks.rows, t.isBreak = false →
        ¬ (t.start < s.finish ∧ s.start < finish g.events t) := by
      intro t ht hbreak hover
      have hfound := conflicting_of_watched hclock h ht hbreak hover
      rw [hc] at hfound
      cases hfound
    intro t ht t' ht' hbreak hbreak' hne
    rcases (mem_createTask t).1 ht with ht | rfl <;> rcases (mem_createTask t').1 ht' with ht' | rfl
    · rw [finish_append ht, finish_append ht']
      exact hno t ht t' ht' hbreak hbreak' hne
    · rw [finish_append ht, finish_stored hg, hnew]
      exact hold t ht hbreak
    · rw [finish_append ht', finish_stored hg, hnew]
      exact fun hover => hold t' ht' hbreak' hover.symm
    · exact absurd rfl hne

theorem noOverlap_perform_iff (hg : Numbered g) {step : GenerateStep} (hclock : ClockedStep step)
    (hno : NoOverlap g.events g.db) :
    NoOverlap (g.perform p step).events (g.perform p step).db ↔ Watched g step := by
  cases step with
  | session s =>
      cases hc : g.db.conflicting s with
      | true =>
          simp only [Progress.perform, hc, if_true]
          exact ⟨fun _ _ _ _ _ _ => hc, fun _ => hno⟩
      | false =>
          simp only [Progress.perform, hc, Bool.false_eq_true, if_false]
          exact noOverlap_create_iff hg hclock hno hc
  | mark t => exact ⟨fun _ => trivial, fun _ => hno⟩

/-- Overlaps stay. -/
theorem noOverlap_of_perform {step : GenerateStep}
    (h : NoOverlap (g.perform p step).events (g.perform p step).db) :
    NoOverlap g.events g.db := by
  cases step with
  | session s =>
      cases hc : g.db.conflicting s with
      | true =>
          simp only [Progress.perform, hc, if_true] at h
          exact h
      | false =>
          simp only [Progress.perform, hc, Bool.false_eq_true, if_false] at h
          intro t ht t' ht' hbreak hbreak' hne
          have hpair := h t ((mem_createTask t).2 (.inl ht)) t' ((mem_createTask t').2 (.inl ht'))
            hbreak hbreak' hne
          rwa [finish_append ht, finish_append ht'] at hpair
  | mark t => exact h

theorem numbered_perform (hg : Numbered g) (step : GenerateStep) : Numbered (g.perform p step) := by
  cases step with
  | session s =>
      simp only [Progress.perform]
      split
      · exact hg
      · intro id length hmem
        show id < g.db.personalTasks.next + 1
        rcases List.mem_append.1 hmem with hmem | hmem
        · have hlt := hg id length hmem
          omega
        · cases List.mem_singleton.1 hmem
          omega
  | mark t => exact hg

end

/-! ## A whole request -/

/-- Sessions come about without overlap exactly if each of them is watched. -/
theorem noOverlap_foldl_iff {p : Project} {l : List GenerateStep} (hl : ∀ s ∈ l, ClockedStep s)
    {g : Progress} (hg : Numbered g) (hno : NoOverlap g.events g.db) :
    NoOverlap (l.foldl (Progress.perform p) g).events (l.foldl (Progress.perform p) g).db ↔
      Run.Meets (Progress.perform p) Watched g l := by
  have hback : ∀ (l : List GenerateStep) (g : Progress),
      NoOverlap (l.foldl (Progress.perform p) g).events (l.foldl (Progress.perform p) g).db →
      NoOverlap g.events g.db := by
    intro l
    induction l with
    | nil => exact fun _ h => h
    | cons s l ih => exact fun g h => noOverlap_of_perform (ih _ h)
  induction l generalizing g with
  | nil => exact ⟨fun _ => trivial, fun _ => hno⟩
  | cons s l ih =>
      have hstep := noOverlap_perform_iff (p := p) hg (hl s List.mem_cons_self) hno
      have hrest := fun s' hs' => hl s' (List.mem_cons_of_mem s hs')
      constructor
      · intro h
        have hmid := hback l _ h
        exact ⟨hstep.1 hmid, (ih hrest (numbered_perform hg s) hmid).1 h⟩
      · rintro ⟨hs, hl'⟩
        exact (ih hrest (numbered_perform hg s) (hstep.2 hs)).2 hl'

theorem clocked_generatePlan {env : PlannerEnv} {db : Planner} {p : Project} {body : String} :
    ∀ s ∈ (generatePlan env db p body).1, ClockedStep s := by
  intro s hs
  obtain ⟨ids, -, hfrom⟩ := mem_generatePlan hs
  cases s with
  | session session =>
      obtain ⟨t, -, s, -, target, hsession⟩ := hfrom
      exact (sessionOn_endTime hsession).2.2
  | mark t => trivial

/-! ## What the schedules plan -/

/-- The query sees every overlap in real time: of a planned session with a stored task, and of two
planned sessions that meet no stored task. -/
structure QuerySuffices (db : Planner) (sessions : List Session) : Prop where
  stored : ∀ s ∈ sessions, ∀ t ∈ db.personalTasks.rows, t.isBreak = false →
    t.start < s.finish ∧ s.start < t.clockEnd → db.conflicting s = true
  planned : sessions.Pairwise fun s s' => db.conflicting s = false → db.conflicting s' = false →
    s.Overlaps s' → s.Meets s'

/-- On one date the query sees that two sessions overlap. -/
theorem Session.meets_of_overlaps {s s' : Session} (hclock : s.Clocked) (hclock' : s'.Clocked)
    (hs : s.OnDate) (hs' : s'.OnDate) (hover : s.Overlaps s') : s.Meets s' := by
  have hend := endTime_of_onDate hclock hs
  have hend' := endTime_of_onDate hclock' hs'
  have hday : dayLength = 86400000000 := rfl
  have h0 := s.startTime.nonneg
  have h0' := s'.startTime.nonneg
  have h1 := hs.2
  have h1' := hs'.2
  simp only [Overlaps, start, Session.finish, DateTime.micros, hday] at hover
  rw [hday] at h1 h1'
  have hdate : s.date = s'.date := by
    refine Date.ext_ordinal ?_
    omega
  refine ⟨hdate, ?_, ?_⟩
  · rw [hdate] at hover
    omega
  · rw [hdate] at hover
    omega

/-- The query suffices where every planned session ends on its date before midnight and every stored
task after it starts. -/
theorem querySuffices_of_onDate {db : Planner} {sessions : List Session}
    (hclock : ∀ s ∈ sessions, s.Clocked) (hdate : ∀ s ∈ sessions, s.OnDate)
    (htasks : ∀ t ∈ db.personalTasks.rows, t.startTime.micros < t.endTime.micros) :
    QuerySuffices db sessions where
  stored := fun s hs t ht hbreak hover => by
    have honDate : OnDate [] t := ⟨htasks t ht, if_pos (htasks t ht)⟩
    exact conflicting_of_overlap (hclock s hs) (hdate s hs) honDate ht hbreak hover
  planned := List.pairwise_of_forall_mem_list fun s hs s' hs' _ _ hover =>
    Session.meets_of_overlaps (hclock s hs) (hclock s' hs') (hdate s hs) (hdate s' hs') hover

/-- The query for none of the planned sessions finds another one of them. -/
def Independent (db : Planner) (sessions : List Session) : Prop :=
  sessions.Pairwise fun s s' => db.conflicting s = false → db.conflicting s' = false → ¬ s.Meets s'

/-- What the loops have made of the database `db` when they have come to the sessions `past`: the
tasks that were there, and tasks of sessions that met none of these. -/
structure Grown (p : Project) (db : Planner) (past : List Session) (g : Progress) : Prop where
  numbered : Numbered g
  kept : ∀ t ∈ db.personalTasks.rows, t ∈ g.db.personalTasks.rows ∧ finish g.events t = t.clockEnd
  rows : ∀ t ∈ g.db.personalTasks.rows, t ∈ db.personalTasks.rows ∨
    ∃ s ∈ past, db.conflicting s = false ∧ t = s.stored p t.id ∧ finish g.events t = s.finish

/-- Each session so far that met no stored task has its task. -/
def AllCreated (db : Planner) (past : List Session) (g : Progress) : Prop :=
  ∀ s ∈ past, db.conflicting s = false → ∃ t ∈ g.db.personalTasks.rows,
    t.isBreak = false ∧ t.start = s.start ∧ finish g.events t = s.finish

section

variable {p : Project} {db : Planner} {past : List Session} {g : Progress} {s : Session}

theorem Grown.free (h : Grown p db past g) (hs : g.db.conflicting s = false) :
    db.conflicting s = false := by
  by_contra hconflict
  have hfound := Planner.conflicting_mono (fun t ht => (h.kept t ht).1)
    (Bool.of_not_eq_false hconflict)
  rw [hs] at hfound
  cases hfound

/-- What the query finds is a stored task or one of the sessions so far. -/
theorem Grown.meets_of_conflicting (h : Grown p db past g) (hs : g.db.conflicting s = true)
    (hfree : db.conflicting s = false) : ∃ s' ∈ past, db.conflicting s' = false ∧ s'.Meets s := by
  obtain ⟨t, ht, hmeets⟩ := List.any_eq_true.1 hs
  have hmeets := of_decide_eq_true hmeets
  rcases h.rows t ht with hold | ⟨s', hs', hfree', htask, -⟩
  · have hfound : db.conflicting s = true := List.any_eq_true.2 ⟨t, hold, decide_eq_true hmeets⟩
    rw [hfree] at hfound
    cases hfound
  · rw [htask] at hmeets
    exact ⟨s', hs', hfree', hmeets.1, hmeets.2.1, hmeets.2.2.1⟩

theorem grown_session (h : Grown p db past g) (s : Session) :
    Grown p db (past ++ [s]) (g.perform p (.session s)) := by
  have hpast : ∀ s' ∈ past, s' ∈ past ++ [s] := fun s' => List.mem_append_left _
  refine ⟨numbered_perform h.numbered _, ?_, ?_⟩
  · intro t ht
    refine ⟨g.rows_perform _ t (h.kept t ht).1, ?_⟩
    simp only [Progress.perform]
    split
    · exact (h.kept t ht).2
    · exact (finish_append (h.kept t ht).1).trans (h.kept t ht).2
  · cases hc : g.db.conflicting s with
    | true =>
        simp only [Progress.perform, hc, if_true]
        intro t ht
        rcases h.rows t ht with hold | ⟨s', hs', hrest⟩
        · exact .inl hold
        · exact .inr ⟨s', hpast s' hs', hrest⟩
    | false =>
        simp only [Progress.perform, hc, Bool.false_eq_true, if_false]
        intro t ht
        rcases (mem_createTask t).1 ht with ht | rfl
        · rcases h.rows t ht with hold | ⟨s', hs', hfree, htask, hfinish⟩
          · exact .inl hold
          · exact .inr ⟨s', hpast s' hs', hfree, htask, (finish_append ht).trans hfinish⟩
        · exact .inr ⟨s, List.mem_append_right _ List.mem_cons_self, h.free hc, rfl,
            finish_stored h.numbered⟩

theorem grown_mark (h : Grown p db past g) (t : ProjectTask) :
    Grown p db past (g.perform p (.mark t)) := ⟨h.numbered, h.kept, h.rows⟩

/-- Where the query suffices, every session is watched. -/
theorem Grown.watched (h : Grown p db past g)
    (hstored : ∀ t ∈ db.personalTasks.rows, t.isBreak = false →
      t.start < s.finish ∧ s.start < t.clockEnd → db.conflicting s = true)
    (hplanned : ∀ s' ∈ past, db.conflicting s' = false → db.conflicting s = false →
      s'.Overlaps s → s'.Meets s) : Watched g (.session s) := by
  intro t ht hbreak _ hover
  by_contra hconflict
  have hfree := h.free (Bool.of_not_eq_true hconflict)
  rcases h.rows t ht with hold | ⟨s', hs', hfree', htask, hfinish⟩
  · rw [(h.kept t hold).2] at hover
    rw [hstored t hold hbreak hover] at hfree
    cases hfree
  · rw [hfinish, htask] at hover
    have hmeets := hplanned s' hs' hfree' hfree hover
    refine hconflict (List.any_eq_true.2 ⟨t, ht, decide_eq_true ?_⟩)
    rw [htask]
    exact ⟨hmeets.1, hmeets.2.1, hmeets.2.2, rfl⟩

theorem meets_watched {l : List GenerateStep} (h : Grown p db past g)
    (hl : QuerySuffices db (l.filterMap GenerateStep.session?))
    (hpast : ∀ s' ∈ past, ∀ s ∈ l.filterMap GenerateStep.session?, db.conflicting s' = false →
      db.conflicting s = false → s'.Overlaps s → s'.Meets s) :
    Run.Meets (Progress.perform p) Watched g l := by
  induction l generalizing past g with
  | nil => trivial
  | cons step l ih =>
      cases step with
      | mark t => exact ⟨trivial, ih (grown_mark h t) hl hpast⟩
      | session s =>
          obtain ⟨hstored, hplanned⟩ := hl
          obtain ⟨hfirst, hrest⟩ := List.pairwise_cons.1 hplanned
          refine ⟨h.watched (hstored s List.mem_cons_self) fun s' hs' =>
              hpast s' hs' s List.mem_cons_self,
            ih (grown_session h s) ⟨fun s' hs' => hstored s' (List.mem_cons_of_mem _ hs'), hrest⟩ ?_⟩
          intro s' hs' s₁ hs₁
          rcases List.mem_append.1 hs' with hs' | hs'
          · exact hpast s' hs' s₁ (List.mem_cons_of_mem _ hs₁)
          · cases List.mem_singleton.1 hs'
            exact hfirst s₁ hs₁

/-! ## Sessions that do not meet each other -/

theorem allCreated_session (h : Grown p db past g) (hall : AllCreated db past g) (s : Session)
    (hapart : ∀ s' ∈ past, db.conflicting s' = false → db.conflicting s = false → ¬ s'.Meets s) :
    AllCreated db (past ++ [s]) (g.perform p (.session s)) := by
  intro s' hs' hfree
  rcases List.mem_append.1 hs' with hs' | hs'
  · obtain ⟨t, ht, hbreak, hstart, hfinish⟩ := hall s' hs' hfree
    refine ⟨t, g.rows_perform _ t ht, hbreak, hstart, ?_⟩
    simp only [Progress.perform]
    split
    · exact hfinish
    · exact (finish_append ht).trans hfinish
  · cases List.mem_singleton.1 hs'
    cases hc : g.db.conflicting s with
    | true =>
        obtain ⟨s', hs', hfree', hmeets⟩ := h.meets_of_conflicting hc hfree
        exact absurd hmeets (hapart s' hs' hfree' hfree)
    | false =>
        simp only [Progress.perform, hc, Bool.false_eq_true, if_false]
        exact ⟨s.stored p g.db.personalTasks.next, (mem_createTask _).2 (.inr rfl), rfl, rfl,
          finish_stored h.numbered⟩

/-- A watched session that meets no other one overlaps nothing. -/
theorem not_overlaps_of_watched (h : Grown p db past g) (hclock : s.Clocked)
    (hwatched : Watched g (.session s))
    (hapart : ∀ s' ∈ past, db.conflicting s' = false → db.conflicting s = false → ¬ s'.Meets s)
    (hfree : db.conflicting s = false) {t : PersonalTask} (ht : t ∈ g.db.personalTasks.rows)
    (hbreak : t.isBreak = false) : ¬ (t.start < s.finish ∧ s.start < finish g.events t) := by
  intro hover
  have hfound := conflicting_of_watched hclock hwatched ht hbreak hover
  obtain ⟨s', hs', hfree', hmeets⟩ := h.meets_of_conflicting hfound hfree
  exact hapart s' hs' hfree' hfree hmeets

theorem suffices_of_watched {l : List GenerateStep} (h : Grown p db past g)
    (hall : AllCreated db past g) (hclock : ∀ step ∈ l, ClockedStep step)
    (hapart : Independent db (l.filterMap GenerateStep.session?))
    (hpast : ∀ s' ∈ past, ∀ s ∈ l.filterMap GenerateStep.session?, db.conflicting s' = false →
      db.conflicting s = false → ¬ s'.Meets s)
    (hwatched : Run.Meets (Progress.perform p) Watched g l) :
    QuerySuffices db (l.filterMap GenerateStep.session?) ∧
      ∀ s' ∈ past, ∀ s ∈ l.filterMap GenerateStep.session?, db.conflicting s' = false →
        db.conflicting s = false → ¬ s'.Overlaps s := by
  induction l generalizing past g with
  | nil => exact ⟨⟨fun s hs => (by cases hs), .nil⟩, fun s' _ s hs => (by cases hs)⟩
  | cons step l ih =>
      have hclock' := fun step' hstep' => hclock step' (List.mem_cons_of_mem step hstep')
      cases step with
      | mark t => exact ih (grown_mark h t) hall hclock' hapart hpast hwatched.2
      | session s =>
          obtain ⟨hfirst, hrest⟩ := List.pairwise_cons.1 hapart
          have hpast' : ∀ s' ∈ past, db.conflicting s' = false → db.conflicting s = false →
              ¬ s'.Meets s := fun s' hs' => hpast s' hs' s List.mem_cons_self
          have hnone := not_overlaps_of_watched h (hclock _ List.mem_cons_self) hwatched.1 hpast'
          have hpastNext : ∀ s' ∈ past ++ [s], ∀ s₁ ∈ l.filterMap GenerateStep.session?,
              db.conflicting s' = false → db.conflicting s₁ = false → ¬ s'.Meets s₁ := by
            intro s' hs' s₁ hs₁
            rcases List.mem_append.1 hs' with hs' | hs'
            · exact hpast s' hs' s₁ (List.mem_cons_of_mem _ hs₁)
            · cases List.mem_singleton.1 hs'
              exact hfirst s₁ hs₁
          obtain ⟨hsuffices, hover⟩ := ih (grown_session h s) (allCreated_session h hall s hpast')
            hclock' hrest hpastNext hwatched.2
          refine ⟨⟨fun s₁ hs₁ => ?_, .cons (fun s₁ hs₁ hfree hfree₁ hov => ?_) hsuffices.planned⟩,
            fun s' hs' s₁ hs₁ hfree' hfree hov => ?_⟩
          · rcases List.mem_cons.1 hs₁ with rfl | hs₁
            · intro t ht hbreak hov
              by_contra hconflict
              refine hnone (Bool.of_not_eq_true hconflict) (h.kept t ht).1 hbreak ?_
              rw [(h.kept t ht).2]
              exact hov
            · exact hsuffices.stored s₁ hs₁
          · exact absurd hov (hover s (List.mem_append_right _ List.mem_cons_self) s₁ hs₁ hfree
              hfree₁)
          · rcases List.mem_cons.1 hs₁ with rfl | hs₁
            · obtain ⟨t, ht, hbreak, hstart, hfinish⟩ := hall s' hs' hfree'
              refine hnone hfree ht hbreak ?_
              rw [hstart, hfinish]
              exact hov
            · exact hover s' (List.mem_append_left _ hs') s₁ hs₁ hfree' hfree hov

end

/-- **When `generate_schedule` keeps tasks apart.** A request that starts with tasks that do not overlap
in real time ends with such tasks, if the query sees every overlap that the schedules plan. Where it
finds no planned session for another, the request does so only then. -/
theorem generateSchedule_noOverlap (env : PlannerEnv) {db : Planner} {projectId : Nat}
    {p : Project} (hp : db.projects.find? projectId = some p) (body : String)
    (hno : NoOverlap [] db) :
    (QuerySuffices db (plannedSessions env db p body) →
      NoOverlap ((generateScheduleView env projectId body).run db).trace
        ((generateScheduleView env projectId body).run db).state) ∧
    (Independent db (plannedSessions env db p body) →
      NoOverlap ((generateScheduleView env projectId body).run db).trace
        ((generateScheduleView env projectId body).run db).state →
      QuerySuffices db (plannedSessions env db p body)) := by
  have hnumbered : Numbered ⟨db, [], ⟨0, []⟩⟩ := fun id length hmem => by cases hmem
  have hgrown : Grown p db [] ⟨db, [], ⟨0, []⟩⟩ :=
    ⟨hnumbered, fun t ht => ⟨ht, rfl⟩, fun t ht => .inl ht⟩
  have hclock : ∀ s ∈ (generatePlan env db p body).1, ClockedStep s := clocked_generatePlan
  have hwatched := noOverlap_foldl_iff (p := p) hclock hnumbered hno
  rw [run_generateScheduleView env hp body]
  constructor
  · intro hsuffices
    exact hwatched.2 (meets_watched hgrown hsuffices fun s' hs' => by cases hs')
  · intro hapart hend
    exact (suffices_of_watched hgrown (fun s hs => by cases hs) hclock hapart
      (fun s' hs' => by cases hs') (hwatched.1 hend)).1

/-- The planner whose two tasks are scheduled at the same time of one day. -/
def twicePlanner (start : Fin 1440) (hours : Nat) : Planner :=
  PlannerSample.planner PlannerSample.today
    (fun k => { PlannerSample.schedule 1 (PlannerSample.minutes start) (.finite hours) 1 with id := k })
    (fun k => { PlannerSample.schedule 2 (PlannerSample.minutes start) (.finite hours) 1 with id := k })
    (fun _ => rfl) fun _ => rfl

/-- Two tasks at ten o'clock for two hours: the second session is turned away. -/
theorem generateSchedule_noOverlap_morning :
    NoOverlap ((generateScheduleView PlannerSample.env 1 "all").run (twicePlanner 600 2)).trace
      ((generateScheduleView PlannerSample.env 1 "all").run (twicePlanner 600 2)).state := by
  have hproject : (twicePlanner 600 2).projects.find? 1
      = some (PlannerSample.project PlannerSample.today) := rfl
  have hboth := generateSchedule_noOverlap PlannerSample.env hproject "all" (by decide)
  refine hboth.1 ⟨?_, ?_⟩
  · decide +kernel
  · decide +kernel

/-- Two sessions from 23:00 for two hours of the same night are both created. -/
theorem not_noOverlap_night :
    ¬ ∀ env db projectId p body, db.projects.find? projectId = some p → NoOverlap [] db →
      NoOverlap ((generateScheduleView env projectId body).run db).trace
        ((generateScheduleView env projectId body).run db).state := by
  intro h
  have hnight := h PlannerSample.env (twicePlanner 1380 2) 1
    (PlannerSample.project PlannerSample.today) "all" rfl (by decide)
  exact absurd hnight (by decide +kernel)

end DailyScheduler
