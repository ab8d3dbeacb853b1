import DailyScheduler.Planner.History

set_option autoImplicit false

/-! # The days of prayers

The table of prayer completions stands for a diary: what was last said of each prayer on each date. A
`Diary` is that function alone; a request that can be read and names a prayer the database takes writes one
entry of it, whatever the view answers. The table follows the diary, and so does the page of a day, which
looks a prayer up in two ways.
-/

namespace DailyScheduler

open AtomicProg Calendar

/-! ## The diary -/

/-- The status of each prayer on each date. -/
abbrev Diary := String → Date → PrayerCompletionStatus

namespace Diary

/-- Nothing was said of any prayer. -/
def blank : Diary := fun _ _ => .notYet

def mark (d : Diary) (prayerName : String) (date : Date) (status : PrayerCompletionStatus) : Diary :=
  fun n t => if n = prayerName ∧ t = date then status else d n t

/-- The status that a request is about. -/
def statusOf (env : PrayerEnv) (body : String) : PrayerCompletionStatus :=
  match env.jsonLoads body with
  | none => .notYet
  | some data => match readToggle data with
      | .error _ => .notYet
      | .ok (_, status) => status.toStatus

/-- One request. -/
def toggle (env : PrayerEnv) (d : Diary) (prayerName body : String) : Diary :=
  match Prayers.toggleDate env body with
  | none => d
  | some date =>
      if env.acceptsName prayerName then d.mark prayerName date (statusOf env body) else d

/-- The requests of the planner: all but one kind leave the diary alone. -/
def serve (env : DeskEnv) (d : Diary) : DbRequest → Diary
  | .togglePrayer prayerName body => d.toggle env.toPrayerEnv prayerName body
  | _ => d

end Diary

/-! ## The page of a day -/

/-- An entry of the page of a day. -/
structure DailyPrayer where
  prayerName : String
  prayerDisplay : String
  startTime : Time
  endTime : Time
  isCompleted : Bool
  status : PrayerCompletionStatus
  deriving DecidableEq

/-- The page of a day. -/
structure DailyPrayers where
  prayers : List DailyPrayer
  totalPrayers : Nat
  completedPrayers : Nat
  completionPercentage : ℚ
  deriving DecidableEq

/-- The page with some entries. -/
def DailyPrayers.of (prayers : List DailyPrayer) : DailyPrayers where
  prayers := prayers
  totalPrayers := prayers.length
  completedPrayers := (prayers.filter (·.isCompleted)).length
  completionPercentage :=
    if prayers.length > 0 then ((prayers.filter (·.isCompleted)).length : ℚ) / prayers.length * 100
    else 0

/-- `get_prayer_name_display`. -/
def PrayerSchedule.display (p : PrayerSchedule) : String :=
  ((PrayerName.choices.find? fun c => c.1 = p.prayerName).map Prod.snd).getD p.prayerName

/-- `order_by("start_time")`. -/
def PlannerDb.prayersByTime (db : PlannerDb) : List PrayerSchedule :=
  db.prayerSchedules.rows.insertionSort fun p p' => p.startTime.micros ≤ p'.startTime.micros

/-- `completion_dict.get(prayer_name)`: of equal keys the last one counts. -/
def Planner.completionDict (db : Planner) (date : Date) (prayerName : String) : Option Bool :=
  ((((db.prayerCompletions.rows.filter fun r => decide (r.date = date)).map
    fun r => (r.prayerName, r.isCompleted)).reverse.find? fun c => decide (c.1 = prayerName))).map Prod.snd

/-- `get_daily_prayer_completions` for a date. -/
def PlannerDb.getDailyPrayerCompletions (db : PlannerDb) (date : Date) : DailyPrayers :=
  .of (db.prayersByTime.map fun prayer =>
    { prayerName := prayer.prayerName
      prayerDisplay := prayer.display
      startTime := prayer.startTime
      endTime := prayer.endTime
      isCompleted := (db.completionDict date prayer.prayerName).getD false
      status := match db.findPrayer prayer.prayerName date with
        | some completion => completion.status
        | none => .notYet })

/-- The page that a diary gives. -/
def Diary.page (d : Diary) (prayers : List PrayerSchedule) (date : Date) : DailyPrayers :=
  .of (prayers.map fun prayer =>
    { prayerName := prayer.prayerName
      prayerDisplay := prayer.display
      startTime := prayer.startTime
      endTime := prayer.endTime
      isCompleted := decide (d prayer.prayerName date = .prayed)
      status := d prayer.prayerName date })

/-! ## The table follows the diary -/

/-- What a record says of itself agrees: it has a time exactly if it is completed. -/
structure Coherent (r : PrayerCompletion) : Prop where
  isCompleted : r.isCompleted = decide (r.status = .prayed)
  completedAt : r.completedAt.isSome = decide (r.status = .prayed)

/-- The table has the entries of the diary. -/
structure Diary.WrittenIn (env : PrayerEnv) (d : Diary) (c : PrayerRows) : Prop where
  unique : c.UniqueBy fun r => (r.prayerName, r.date)
  coherent : ∀ r ∈ c.rows, Coherent r
  names : ∀ r ∈ c.rows, env.acceptsName r.prayerName = true
  present : ∀ r ∈ c.rows, d r.prayerName r.date = r.status
  absent : ∀ n t, (∀ r ∈ c.rows, ¬ (r.prayerName = n ∧ r.date = t)) → d n t = .notYet

/-- What marking a record changes. -/
theorem PrayerCompletion.marked_spec (r : PrayerCompletion) (status : PrayerCompletionStatus)
    (now : DateTime) : (r.marked status now).id = r.id ∧
      (r.marked status now).prayerName = r.prayerName ∧ (r.marked status now).date = r.date ∧
      (r.marked status now).status = status ∧ Coherent (r.marked status now) := by
  cases status <;> exact ⟨rfl, rfl, rfl, rfl, rfl, rfl⟩

namespace Diary.WrittenIn

variable {env : PrayerEnv} {d : Diary} {c : PrayerRows}

theorem blank (env : PrayerEnv) : Diary.blank.WrittenIn env (.empty : PrayerRows) := by
  refine ⟨Table.UniqueBy.empty, ?_, ?_, ?_, fun _ _ _ => rfl⟩ <;> intro r hr <;> cases hr

/-- A new record says what the diary said before: nothing. -/
theorem insert (h : d.WrittenIn env c) {prayerName : String} {date : Date}
    (hname : env.acceptsName prayerName = true)
    (hnew : ∀ r ∈ c.rows, ¬ (r.prayerName = prayerName ∧ r.date = date)) :
    d.WrittenIn env
      (c.insert (fun k => { newPrayer prayerName date with id := k }) fun _ => rfl) := by
  refine ⟨h.unique.insert _ fun r hr hsame => hnew r hr (Prod.mk.inj hsame), ?_, ?_, ?_, ?_⟩
  · intro r hr
    rcases (Table.mem_insert _ _ _ _).1 hr with hr | rfl
    · exact h.coherent r hr
    · exact ⟨rfl, rfl⟩
  · intro r hr
    rcases (Table.mem_insert _ _ _ _).1 hr with hr | rfl
    · exact h.names r hr
    · exact hname
  · intro r hr
    rcases (Table.mem_insert _ _ _ _).1 hr with hr | rfl
    · exact h.present r hr
    · exact h.absent prayerName date hnew
  · intro n t hnone
    exact h.absent n t fun r hr => hnone r ((Table.mem_insert _ _ _ _).2 (.inl hr))

/-- A record is marked, and so is the entry of the diary. -/
theorem update (h : d.WrittenIn env c) {r : PrayerCompletion} (hr : r ∈ c.rows)
    (status : PrayerCompletionStatus) (now : DateTime) :
    (d.mark r.prayerName r.date status).WrittenIn env (c.update (r.marked status now)) := by
  obtain ⟨hid, hname, hdate, hstatus, hcoherent⟩ := r.marked_spec status now
  have hsame : (r.marked status now).prayerName = r.prayerName ∧
      (r.marked status now).date = r.date := ⟨hname, hdate⟩
  have hrows : ∀ u ∈ (c.update (r.marked status now)).rows, u = r.marked status now ∨
      u ∈ c.rows ∧ ¬ (u.prayerName = r.prayerName ∧ u.date = r.date) := by
    intro u hu
    obtain ⟨v, hv, rfl⟩ := List.mem_map.1 hu
    by_cases hkey : v.id = (r.marked status now).id
    · exact .inl (if_pos hkey)
    · rw [if_neg hkey]
      refine .inr ⟨hv, fun heq => ?_⟩
      have hvr : v = r := h.unique v hv r hr (Prod.ext heq.1 heq.2)
      rw [hvr, hid] at hkey
      exact hkey rfl
  refine ⟨h.unique.update hr hid (Prod.ext hname hdate), ?_, ?_, ?_, ?_⟩
  · intro u hu
    rcases hrows u hu with rfl | ⟨hu, -⟩
    · exact hcoherent
    · exact h.coherent u hu
  · intro u hu
    rcases hrows u hu with rfl | ⟨hu, -⟩
    · rw [hname]
      exact h.names r hr
    · exact h.names u hu
  · intro u hu
    rcases hrows u hu with rfl | ⟨hu, hother⟩
    · rw [hstatus]
      exact if_pos hsame
    · rw [← h.present u hu]
      exact if_neg hother
  · intro n t hnone
    have hmarked : r.marked status now ∈ (c.update (r.marked status now)).rows :=
      List.mem_map.2 ⟨r, hr, if_pos hid.symm⟩
    have hother : ¬ (n = r.prayerName ∧ t = r.date) := by
      rintro ⟨rfl, rfl⟩
      exact hnone _ hmarked hsame
    calc d.mark r.prayerName r.date status n t = d n t := if_neg hother
      _ = .notYet := by
        refine h.absent n t fun u hu heq => ?_
        by_cases hkey : u.id = r.id
        · have hur : u = r := c.eq_of_key_eq hu hr hkey
          rw [hur] at heq
          exact hother ⟨heq.1.symm, heq.2.symm⟩
        · refine hnone u (List.mem_map.2 ⟨u, hu, if_neg ?_⟩) heq
          rw [hid]
          exact hkey

end Diary.WrittenIn

/-! ## One request -/

theorem findPrayer_eq_none {db : Planner} {prayerName : String} {date : Date}
    (h : db.findPrayer prayerName date = none) :
    ∀ r ∈ db.prayerCompletions.rows, ¬ (r.prayerName = prayerName ∧ r.date = date) := by
  intro r hr hsame
  exact List.find?_eq_none.1 h r hr (decide_eq_true hsame)

/-- The `try` block writes the entry, if the record is there or may be created. -/
theorem recordPrayer_follows {env : PrayerEnv} {d : Diary} {db : Planner}
    (h : d.WrittenIn env db.prayerCompletions) {dateStr : Json} {date : Date}
    (hdate : dateStr.toDate env = .ok date) (prayerName : String) (status : Json) :
    Diary.WrittenIn env
      (if env.acceptsName prayerName then d.mark prayerName date status.toStatus else d)
      ((recordPrayer env prayerName dateStr status).exec db).prayerCompletions := by
  have hmark : ∀ {db' : Planner} {r : PrayerCompletion}, d.WrittenIn env db'.prayerCompletions →
      r ∈ db'.prayerCompletions.rows → r.prayerName = prayerName → r.date = date →
      Diary.WrittenIn env
        (if env.acceptsName prayerName then d.mark prayerName date status.toStatus else d)
        (db'.updatePrayer (r.marked status.toStatus db'.now)).prayerCompletions := by
    intro db' r h' hr hn ht
    have haccepts := h'.names r hr
    rw [hn] at haccepts
    rw [if_pos haccepts, ← hn, ← ht]
    exact h'.update hr _ _
  have hexec : (recordPrayer env prayerName dateStr status).exec db
      = (getOrCreatePrayer env prayerName date >>= fun r => (Prog.read (·.now) >>= fun now =>
          Prog.write (·.updatePrayer (r.marked status.toStatus now)) >>= fun _ =>
            View.ofExcept status.replaced : View Unit)).exec db := by
    unfold recordPrayer
    rw [hdate]
    rfl
  rw [hexec]
  cases hfind : db.findPrayer prayerName date with
  | some r =>
      obtain ⟨hr, hname, hrdate⟩ := Prayers.findPrayer_eq_some hfind
      have hrun : (getOrCreatePrayer env prayerName date).run db = ⟨.ok r, db, []⟩ := by
        unfold getOrCreatePrayer
        simp only [Prog.run_bind, Prog.run_read, Prog.Outcome.andThen_ok, hfind]
        rfl
      rw [Prog.exec_bind, hrun]
      dsimp only
      rw [Prog.exec_eq_of_run hrun, Prayers.exec_markPrayer]
      exact hmark h hr hname hrdate
  | none =>
      have hnew := findPrayer_eq_none hfind
      by_cases haccepts : env.acceptsName prayerName = true
      · have hrun : (getOrCreatePrayer env prayerName date).run db
            = ⟨.ok { newPrayer prayerName date with id := db.prayerCompletions.next },
                db.createPrayer (newPrayer prayerName date), []⟩ := by
          unfold getOrCreatePrayer
          simp only [Prog.run_bind, Prog.run_read, Prog.Outcome.andThen_ok, hfind, haccepts, if_true,
            Prog.run_command]
          rfl
        rw [Prog.exec_bind, hrun]
        dsimp only
        rw [Prog.exec_eq_of_run hrun, Prayers.exec_markPrayer]
        have hinsert : d.WrittenIn env
            (db.createPrayer (newPrayer prayerName date)).prayerCompletions := h.insert haccepts hnew
        exact hmark hinsert ((Table.mem_insert _ _ _ _).2 (.inr rfl)) rfl rfl
      · have hrun : (getOrCreatePrayer env prayerName date).run db = ⟨.error .dataError, db, []⟩ := by
          unfold getOrCreatePrayer
          simp only [Prog.run_bind, Prog.run_read, Prog.Outcome.andThen_ok, hfind, haccepts]
          rfl
        rw [Prog.exec_bind, hrun]
        dsimp only
        rw [Prog.exec_eq_of_run hrun, if_neg haccepts]
        exact h

/-- A request that marks a prayer writes one entry of the diary, whatever it is answered. -/
theorem togglePrayerCompletion_follows {env : PrayerEnv} {d : Diary} {db : Planner}
    (h : d.WrittenIn env db.prayerCompletions) (prayerName body : String) :
    (d.toggle env prayerName body).WrittenIn env
      ((togglePrayerCompletion env prayerName body).exec db).prayerCompletions := by
  unfold togglePrayerCompletion Diary.toggle Prayers.toggleDate Diary.statusOf
  cases env.jsonLoads body with
  | none => exact h
  | some data =>
      dsimp only
      cases readToggle data with
      | error x => exact h
      | ok p =>
          simp only [View.ofExcept, Prog.ret_bind]
          by_cases hfalsy : (p.1.getD .null).falsy = true
          · simp only [hfalsy, if_true]
            exact h
          · rw [if_neg hfalsy, if_neg hfalsy]
            rw [Prog.exec_bind_of_silent (fun v db₁ => by split <;> rfl), Prog.exec_attempt]
            cases hdate : (p.1.getD .null).toDate env with
            | error x =>
                have hraises : (recordPrayer env prayerName (p.1.getD .null) p.2).exec db = db := by
                  unfold recordPrayer
                  rw [hdate]
                  rfl
                rw [hraises]
                exact h
            | ok date => exact recordPrayer_follows h hdate prayerName p.2

theorem PlannerDb.step_follows (env : DeskEnv) {d : Diary} {db : PlannerDb}
    (h : d.WrittenIn env.toPrayerEnv db.prayerCompletions) (q : DbRequest) :
    (d.serve env q).WrittenIn env.toPrayerEnv (db.step env q).prayerCompletions := by
  have hserve : (d.serve env q).WrittenIn env.toPrayerEnv (db.serve env q).prayerCompletions := by
    have honly : ∀ {g : Group}, q.group = some g → g ≠ .prayers →
        (db.serve env q).prayerCompletions = db.prayerCompletions :=
      fun hq hg => (Planner.serve_only env db.toPlanner hq).prayers hg
    cases q with
    | planner r =>
        cases r with
        | createPersonalTask | editPersonalTask | copyTasksFromYesterday | autoInsertBreaks =>
            rw [honly (g := .tasks) rfl (by decide)]
            exact h
        | generateSchedule projectId body =>
            show Diary.WrittenIn _ _ ((generateScheduleView _ projectId body).exec _).prayerCompletions
            rw [generateSchedule_prayers]
            exact h
        | clock now => exact h
    | deletePersonalTask | createSubtask | toggleSubtask | deleteSubtask =>
        rw [honly (g := .tasks) rfl (by decide)]
        exact h
    | createProject | projectDetail | createProjectTask | deleteProjectTask | createSchedule
    | deleteProject =>
        rw [honly (g := .projects) rfl (by decide)]
        exact h
    | togglePrayer prayerName body => exact togglePrayerCompletion_follows h prayerName body
    | toggleTask | createPrayer | updatePrayer | deletePrayer => exact h
  cases q with
  | toggleTask id body =>
      rcases toggleTaskCompletion_cases env id body db with hsame | ⟨t, b, now, label, -, hdone⟩
      · show Diary.WrittenIn _ _ ((toggleTaskCompletion env id body).exec db).prayerCompletions
        rw [hsame]
        exact h
      · show Diary.WrittenIn _ _ ((toggleTaskCompletion env id body).exec db).prayerCompletions
        rw [hdone]
        exact h
  | createPrayer r =>
      have hsame := (exec_of_prayerTimesOnly (createPrayerView_steps env r) db).1
      show Diary.WrittenIn _ _ ((createPrayerView env r).exec db).prayerCompletions
      rw [hsame]
      exact h
  | updatePrayer id r =>
      have hsame := (exec_of_prayerTimesOnly (updatePrayerView_steps env id r) db).1
      show Diary.WrittenIn _ _ ((updatePrayerView env id r).exec db).prayerCompletions
      rw [hsame]
      exact h
  | deletePrayer id =>
      have hsame := (exec_of_prayerTimesOnly (deletePrayerView_steps id) db).1
      show Diary.WrittenIn _ _ ((deletePrayerView id).exec db).prayerCompletions
      rw [hsame]
      exact h
  | planner | deletePersonalTask | createSubtask | toggleSubtask | deleteSubtask | createProject
  | projectDetail | createProjectTask | deleteProjectTask | createSchedule | deleteProject
  | togglePrayer => exact hserve

/-! ## The pages -/

/-- Both ways to look a prayer up give the entry of the diary. -/
theorem Diary.WrittenIn.page {env : PrayerEnv} {d : Diary} {db : PlannerDb}
    (h : d.WrittenIn env db.prayerCompletions) (date : Date) :
    db.getDailyPrayerCompletions date = d.page db.prayersByTime date := by
  have hstatus : ∀ n, (match db.findPrayer n date with
      | some completion => completion.status
      | none => .notYet) = d n date := by
    intro n
    cases hfind : db.findPrayer n date with
    | some r =>
        obtain ⟨hr, rfl, rfl⟩ := Prayers.findPrayer_eq_some hfind
        exact (h.present r hr).symm
    | none => exact (h.absent n date (findPrayer_eq_none hfind)).symm
  have hcompleted : ∀ n, (db.completionDict date n).getD false = decide (d n date = .prayed) := by
    intro n
    unfold Planner.completionDict
    cases hfind : (((db.prayerCompletions.rows.filter fun r => decide (r.date = date)).map
        fun r => (r.prayerName, r.isCompleted)).reverse.find? fun c => decide (c.1 = n)) with
    | some c =>
        have hfound := List.find?_some hfind
        have hname : c.1 = n := of_decide_eq_true hfound
        have hmem := List.mem_reverse.1 (List.mem_of_find?_eq_some hfind)
        obtain ⟨r, hr, rfl⟩ := List.mem_map.1 hmem
        obtain ⟨hrow, hdate⟩ := List.mem_filter.1 hr
        have hdate : r.date = date := of_decide_eq_true hdate
        show r.isCompleted = _
        rw [(h.coherent r hrow).isCompleted, ← h.present r hrow, hdate]
        change r.prayerName = n at hname
        rw [hname]
    | none =>
        have habsent : d n date = .notYet := by
          apply h.absent
          rintro r hr ⟨hname, hdate⟩
          refine List.find?_eq_none.1 hfind (r.prayerName, r.isCompleted) ?_ (decide_eq_true hname)
          rw [List.mem_reverse]
          exact List.mem_map_of_mem (List.mem_filter.2 ⟨hr, decide_eq_true hdate⟩)
        rw [habsent]
        rfl
  unfold PlannerDb.getDailyPrayerCompletions Diary.page
  congr 2
  funext prayer
  rw [hcompleted, hstatus]

/-- **The page of every day shows what was last said of each prayer on it**, after any requests: the
table follows the diary, in which a request writes at most one entry. -/
theorem PlannerDb.daily_prayers_follow_diary (env : DeskEnv) (now : DateTime)
    (requests : List DbRequest) (date : Date) :
    let db := Run.last (PlannerDb.step env) (PlannerDb.init now) requests
    db.getDailyPrayerCompletions date
      = (Run.last (Diary.serve env) Diary.blank requests).page db.prayersByTime date := by
  have hrun : ∀ (requests : List DbRequest) (d : Diary) (db : PlannerDb),
      d.WrittenIn env.toPrayerEnv db.prayerCompletions →
      (Run.last (Diary.serve env) d requests).WrittenIn env.toPrayerEnv
        (Run.last (PlannerDb.step env) db requests).prayerCompletions := by
    intro requests
    induction requests with
    | nil => exact fun _ _ h => h
    | cons q requests ih => exact fun d db h => ih _ _ (PlannerDb.step_follows env h q)
  intro db
  exact (hrun requests Diary.blank (PlannerDb.init now) (Diary.WrittenIn.blank _)).page date

end DailyScheduler
