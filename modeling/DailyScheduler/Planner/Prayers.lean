import DailyScheduler.Lib.Run
import DailyScheduler.Planner.Requests
import DailyScheduler.Planner.Sample
import DailyScheduler.Planner.Statistics
import Mathlib.Data.List.Dedup
import Mathlib.Data.List.Sort

set_option autoImplicit false

/-! # Prayers

`views/prayer_views.py` records a prayer under the name in the URL, whatever it is. The statistics of
`views/analytics_views.py` go over the declared names, those of `get_prayer_stats` over the names in
the table. They agree about a range of dates exactly as long as every record in it has a declared
name.
-/

namespace DailyScheduler

open AtomicProg Calendar

/-! ## Names -/

/-- `PrayerName`. -/
inductive PrayerName where
  | fajr | zhor | asr | magrib | eisha
  deriving DecidableEq

namespace PrayerName

def value : PrayerName → String
  | fajr => "fajr"
  | zhor => "zhor"
  | asr => "asr"
  | magrib => "magrib"
  | eisha => "eisha"

def label : PrayerName → String
  | fajr => "Fajr"
  | zhor => "Zhor"
  | asr => "Asr"
  | magrib => "Magrib"
  | eisha => "Eisha"

/-- `PrayerName.choices`. -/
def choices : List (String × String) := [fajr, zhor, asr, magrib, eisha].map fun n => (n.value, n.label)

end PrayerName

/-- The name is one of `PrayerName`. -/
def Declared (name : String) : Prop := name ∈ PrayerName.choices.map Prod.fst

instance (name : String) : Decidable (Declared name) :=
  inferInstanceAs (Decidable (_ ∈ _))

/-! ## Recording a prayer -/

/-- What the view of prayers uses besides. -/
structure PrayerEnv extends PlannerEnv where
  /-- `datetime.strptime(text, "%Y-%m-%d").date()`. -/
  strptimeDate : String → Option Date
  /-- Whether the database takes the text as a name: it may hold a column to its length. -/
  acceptsName : String → Bool

/-- The answers of `toggle_prayer_completion`. -/
inductive ToggleAnswer where
  | invalidJson
  | dateRequired
  | invalidDate
  | failed (x : ViewError)
  | marked
  deriving DecidableEq

namespace Json

/-- `not x`. -/
def falsy : Json → Bool
  | .null => true
  | .bool b => !b
  | .int n => decide (n = 0)
  | .float x => decide (x = .finite 0)
  | .str s => decide (s = "")
  | .arr l => l.isEmpty
  | .obj d => d.isEmpty

/-- `datetime.strptime(x, "%Y-%m-%d").date()`. -/
def toDate (env : PrayerEnv) : Json → Except ViewError Date
  | .str s => match env.strptimeDate s with
      | some d => .ok d
      | none => .error .valueError
  | _ => .error .typeError

/-- The status a record gets. -/
def toStatus : Json → PrayerCompletionStatus
  | .str s => if s = "prayed" then .prayed else if s = "missed" then .missed else .notYet
  | _ => .notYet

/-- `status.replace('_', ' ')`, of which only texts are capable. -/
def replaced : Json → Except ViewError Unit
  | .str _ => .ok ()
  | _ => .error .attributeError

end Json

namespace Planner

variable (db : Planner)

/-- The record of a name and a date. -/
def findPrayer (prayerName : String) (date : Date) : Option PrayerCompletion :=
  db.prayerCompletions.rows.find? fun r => decide (r.prayerName = prayerName ∧ r.date = date)

def createPrayer (row : PrayerCompletion) : Planner :=
  { db with
    prayerCompletions := db.prayerCompletions.insert (fun k => { row with id := k }) fun _ => rfl }

def updatePrayer (row : PrayerCompletion) : Planner :=
  { db with prayerCompletions := db.prayerCompletions.update row }

end Planner

/-- A new record, with the defaults of its columns. -/
def newPrayer (prayerName : String) (date : Date) : PrayerCompletion :=
  ⟨0, prayerName, date, false, .notYet, none⟩

/-- `PrayerCompletion.objects.get_or_create`. -/
def getOrCreatePrayer (env : PrayerEnv) (prayerName : String) (date : Date) :
    View PrayerCompletion := do
  match ← Prog.read (·.findPrayer prayerName date) with
  | some r => pure r
  | none =>
      if env.acceptsName prayerName then
        Prog.command (fun db => ({ newPrayer prayerName date with id := db.prayerCompletions.next },
          db.createPrayer (newPrayer prayerName date))) fun _ => []
      else throw .dataError

/-- The record with a status. -/
def PrayerCompletion.marked (r : PrayerCompletion) (status : PrayerCompletionStatus)
    (now : DateTime) : PrayerCompletion :=
  match status with
  | .prayed => { r with isCompleted := true, status := .prayed, completedAt := some now }
  | .missed => { r with isCompleted := false, status := .missed, completedAt := none }
  | .notYet => { r with isCompleted := false, status := .notYet, completedAt := none }

/-- The `try` block of `toggle_prayer_completion`. -/
def recordPrayer (env : PrayerEnv) (prayerName : String) (dateStr status : Json) : View Unit := do
  let date ← View.ofExcept (dateStr.toDate env)
  let prayerCompletion ← getOrCreatePrayer env prayerName date
  let now ← Prog.read (·.now)
  Prog.write (·.updatePrayer (prayerCompletion.marked status.toStatus now))
  View.ofExcept status.replaced

/-- The date and the status of a request. -/
def readToggle (data : Json) : Except ViewError (Option Json × Json) := do
  let dateStr ← data.get "date"
  let status ← data.get "status"
  pure (dateStr, status.getD (.str "not_yet"))

/-- `toggle_prayer_completion`. -/
def togglePrayerCompletion (env : PrayerEnv) (prayerName body : String) : View ToggleAnswer :=
  match env.jsonLoads body with
  | none => pure .invalidJson
  | some data => do
      let (dateStr, status) ← View.ofExcept (readToggle data)
      let dateStr := dateStr.getD .null
      if dateStr.falsy then pure .dateRequired
      else do
        match ← (recordPrayer env prayerName dateStr status).attempt with
        | .ok _ => pure .marked
        | .error .valueError => pure .invalidDate
        | .error x => pure (.failed x)

/-! ## Statistics -/

/-- An entry of `get_prayer_stats_by_name`. -/
structure PrayerNameStats extends CompletionStats where
  prayerName : String
  prayerDisplay : String
  deriving DecidableEq

/-- An entry of `get_prayer_stats`. -/
structure PrayerStats where
  prayerName : String
  prayerDisplay : String
  total : Nat
  completed : Nat
  percentage : ℚ
  deriving DecidableEq

namespace Planner

variable (db : Planner) (startDate endDate : Date)

/-- The records of a name in a range of dates. -/
def prayersOf (prayerName : String) : List PrayerCompletion :=
  db.prayerCompletions.rows.filter fun p =>
    decide (p.prayerName = prayerName) && startDate.inRange endDate p.date

def getPrayerStatsByName : List PrayerNameStats :=
  PrayerName.choices.map fun (prayerName, prayerDisplay) =>
    let prayers := db.prayersOf startDate endDate prayerName
    { CompletionStats.of (prayers.filter (·.isCompleted)).length prayers.length with
      prayerName := prayerName
      prayerDisplay := prayerDisplay }

/-- The names in the table for a range of dates, each once and in their order. -/
def prayerNames : List String :=
  (((db.prayerCompletions.rows.filter fun p => startDate.inRange endDate p.date).map
    PrayerCompletion.prayerName).dedup).insertionSort (· ≤ ·)

/-- `get_prayer_stats` for a range of dates. -/
def getPrayerStats : List PrayerStats :=
  (db.prayerNames startDate endDate).map fun prayerName =>
    let prayers := db.prayersOf startDate endDate prayerName
    let stats := CompletionStats.of (prayers.filter (·.isCompleted)).length prayers.length
    { prayerName := prayerName
      prayerDisplay := ((PrayerName.choices.find? fun c => c.1 = prayerName).map Prod.snd).getD
        prayerName
      total := stats.total
      completed := stats.completed
      percentage := stats.percentage }

end Planner

namespace Prayers

/-- The three statistics agree about a range of dates. -/
structure Consistent (db : Planner) (startDate endDate : Date) : Prop where
  completed : ((db.getPrayerStatsByName startDate endDate).map (·.completed)).sum
    = (db.calculatePrayerCompletionStats startDate endDate).completed
  total : ((db.getPrayerStatsByName startDate endDate).map (·.total)).sum
    = (db.calculatePrayerCompletionStats startDate endDate).total
  reported : ∀ r ∈ db.prayerCompletions.rows, startDate.inRange endDate r.date = true →
    ∃ g ∈ db.getPrayerStats startDate endDate, g.prayerName = r.prayerName
  same : ∀ g ∈ db.getPrayerStats startDate endDate,
    ∃ e ∈ db.getPrayerStatsByName startDate endDate,
      e.prayerName = g.prayerName ∧ e.completed = g.completed ∧ e.total = g.total

/-! ## The statistics of one table -/

/-- Counting for each of some names is counting the rows with one of the names. -/
theorem sum_countP_names {β : Type} (name : β → String) (p : β → Bool) (l : List β)
    {names : List String} (hnd : names.Nodup) :
    (names.map fun n => l.countP fun r => decide (name r = n) && p r).sum
      = l.countP fun r => decide (name r ∈ names) && p r := by
  induction names with
  | nil => simp
  | cons n names ih =>
      rw [List.nodup_cons] at hnd
      rw [List.map_cons, List.sum_cons, ih hnd.2]
      clear ih
      induction l with
      | nil => rfl
      | cons r l ih =>
          rw [List.countP_cons, List.countP_cons, List.countP_cons, ← ih]
          by_cases hr : name r = n
          · -- the first name is none of the others
            subst hr
            simp [hnd.1]
            omega
          · simp [hr]
            omega

section Table

variable {db : Planner} {startDate endDate : Date}

theorem prayersOf_length (n : String) : (db.prayersOf startDate endDate n).length
    = db.prayerCompletions.rows.countP fun p =>
        decide (p.prayerName = n) && startDate.inRange endDate p.date :=
  (List.countP_eq_length_filter).symm

theorem prayersOf_completed (n : String) :
    ((db.prayersOf startDate endDate n).filter (·.isCompleted)).length
      = db.prayerCompletions.rows.countP fun p =>
          decide (p.prayerName = n) && (startDate.inRange endDate p.date && p.isCompleted) := by
  rw [Planner.prayersOf, List.filter_filter, List.countP_eq_length_filter]
  congr 2
  funext p
  cases p.isCompleted <;> simp

theorem choices_nodup : (PrayerName.choices.map Prod.fst).Nodup := by decide

/-- The sums over the declared names count the records with such a name. -/
theorem sum_total : ((db.getPrayerStatsByName startDate endDate).map (·.total)).sum
    = db.prayerCompletions.rows.countP fun p =>
        decide (Declared p.prayerName) && startDate.inRange endDate p.date := by
  have hsum := sum_countP_names PrayerCompletion.prayerName
    (fun p => startDate.inRange endDate p.date) db.prayerCompletions.rows choices_nodup
  refine Eq.trans ?_ hsum
  rw [Planner.getPrayerStatsByName, List.map_map, List.map_map]
  congr 1
  refine List.map_congr_left fun c _ => ?_
  exact prayersOf_length c.1

theorem sum_completed : ((db.getPrayerStatsByName startDate endDate).map (·.completed)).sum
    = db.prayerCompletions.rows.countP fun p => decide (Declared p.prayerName) &&
        (startDate.inRange endDate p.date && p.isCompleted) := by
  have hsum := sum_countP_names PrayerCompletion.prayerName
    (fun p => startDate.inRange endDate p.date && p.isCompleted) db.prayerCompletions.rows
    choices_nodup
  refine Eq.trans ?_ hsum
  rw [Planner.getPrayerStatsByName, List.map_map, List.map_map]
  congr 1
  refine List.map_congr_left fun c _ => ?_
  exact prayersOf_completed c.1

theorem total_eq : (db.calculatePrayerCompletionStats startDate endDate).total
    = db.prayerCompletions.rows.countP fun p => startDate.inRange endDate p.date :=
  (List.countP_eq_length_filter).symm

theorem completed_eq : (db.calculatePrayerCompletionStats startDate endDate).completed
    = db.prayerCompletions.rows.countP fun p =>
        startDate.inRange endDate p.date && p.isCompleted := by
  show ((db.prayerCompletions.rows.filter _).filter _).length = _
  rw [List.filter_filter, List.countP_eq_length_filter]
  congr 2
  funext p
  cases p.isCompleted <;> simp

theorem mem_prayerNames {n : String} : n ∈ db.prayerNames startDate endDate ↔
    ∃ r ∈ db.prayerCompletions.rows, startDate.inRange endDate r.date = true ∧
      r.prayerName = n := by
  rw [Planner.prayerNames, List.mem_insertionSort, List.mem_dedup, List.mem_map]
  constructor
  · rintro ⟨r, hr, hn⟩
    obtain ⟨hmem, hin⟩ := List.mem_filter.1 hr
    exact ⟨r, hmem, hin, hn⟩
  · rintro ⟨r, hmem, hin, hn⟩
    exact ⟨r, List.mem_filter.2 ⟨hmem, hin⟩, hn⟩

/-- The statistics agree about a range exactly when every record in it has a declared name. -/
theorem consistent_iff_declared : Consistent db startDate endDate ↔
    ∀ r ∈ db.prayerCompletions.rows, startDate.inRange endDate r.date = true →
      Declared r.prayerName := by
  constructor
  · intro h r hr hin
    obtain ⟨g, hg, hname⟩ := h.reported r hr hin
    obtain ⟨e, he, hsame, -⟩ := h.same g hg
    obtain ⟨c, hc, rfl⟩ := List.mem_map.1 he
    rw [← hname, ← hsame]
    exact List.mem_map.2 ⟨c, hc, rfl⟩
  · intro h
    refine ⟨?_, ?_, fun r hr hin => ?_, fun g hg => ?_⟩
    · rw [sum_completed, completed_eq]
      refine List.countP_congr fun r hr => ?_
      cases hin : startDate.inRange endDate r.date with
      | false => simp
      | true => simp [h r hr hin]
    · rw [sum_total, total_eq]
      refine List.countP_congr fun r hr => ?_
      cases hin : startDate.inRange endDate r.date with
      | false => simp
      | true => simp [h r hr hin]
    · exact ⟨_, List.mem_map.2 ⟨r.prayerName, mem_prayerNames.2 ⟨r, hr, hin, rfl⟩, rfl⟩, rfl⟩
    · obtain ⟨n, hn, rfl⟩ := List.mem_map.1 hg
      obtain ⟨r, hr, hin, rfl⟩ := mem_prayerNames.1 hn
      obtain ⟨c, hc, hname⟩ := List.mem_map.1 (h r hr hin)
      refine ⟨_, List.mem_map.2 ⟨c, hc, rfl⟩, hname, ?_, ?_⟩
      · rw [← hname]
      · rw [← hname]

end Table

/-! ## What a request records -/

/-- The date that a request is about, if it can be read. -/
def toggleDate (env : PrayerEnv) (body : String) : Option Date :=
  match env.jsonLoads body with
  | none => none
  | some data => match readToggle data with
      | .error _ => none
      | .ok (dateStr, _) =>
          if (dateStr.getD .null).falsy then none else ((dateStr.getD .null).toDate env).toOption

/-- The table has a record of the name and the date. -/
def Recorded (db : Planner) (name : String) (date : Date) : Prop :=
  ∃ r ∈ db.prayerCompletions.rows, r.prayerName = name ∧ r.date = date

section Toggle

variable {env : PrayerEnv} {db : Planner}

/-- Marking a record keeps its name and its date. -/
theorem recorded_updatePrayer {r : PrayerCompletion} (hr : r ∈ db.prayerCompletions.rows)
    (status : PrayerCompletionStatus) (now : DateTime) (name : String) (date : Date) :
    Recorded (db.updatePrayer (r.marked status now)) name date ↔ Recorded db name date := by
  have hid : (r.marked status now).id = r.id := by cases status <;> rfl
  have hname : (r.marked status now).prayerName = r.prayerName := by cases status <;> rfl
  have hdate : (r.marked status now).date = r.date := by cases status <;> rfl
  have hkeys : ∀ r' ∈ db.prayerCompletions.rows,
      (if r'.id = (r.marked status now).id then r.marked status now else r').prayerName
          = r'.prayerName ∧
        (if r'.id = (r.marked status now).id then r.marked status now else r').date = r'.date := by
    intro r' hr'
    split
    · rename_i hsame
      rw [hid] at hsame
      have heq := db.prayerCompletions.eq_of_key_eq hr' hr hsame
      rw [heq]
      exact ⟨hname, hdate⟩
    · exact ⟨rfl, rfl⟩
  constructor
  · rintro ⟨r'', hmem, hn, hd⟩
    obtain ⟨r', hr', rfl⟩ := List.mem_map.1 hmem
    obtain ⟨h₁, h₂⟩ := hkeys r' hr'
    exact ⟨r', hr', h₁.symm.trans hn, h₂.symm.trans hd⟩
  · rintro ⟨r', hr', hn, hd⟩
    obtain ⟨h₁, h₂⟩ := hkeys r' hr'
    exact ⟨_, List.mem_map_of_mem hr', h₁.trans hn, h₂.trans hd⟩

theorem recorded_createPrayer (name' : String) (date' : Date) (name : String) (date : Date) :
    Recorded (db.createPrayer (newPrayer name' date')) name date ↔
      Recorded db name date ∨ name = name' ∧ date = date' := by
  constructor
  · rintro ⟨r, hr, hn, hd⟩
    rcases (Table.mem_insert _ _ _ _).1 hr with hr | rfl
    · exact .inl ⟨r, hr, hn, hd⟩
    · exact .inr ⟨hn.symm, hd.symm⟩
  · rintro (⟨r, hr, hn, hd⟩ | ⟨rfl, rfl⟩)
    · exact ⟨r, (Table.mem_insert _ _ _ _).2 (.inl hr), hn, hd⟩
    · exact ⟨_, (Table.mem_insert _ _ _ _).2 (.inr rfl), rfl, rfl⟩

theorem findPrayer_eq_some {name : String} {date : Date} {r : PrayerCompletion}
    (h : db.findPrayer name date = some r) :
    r ∈ db.prayerCompletions.rows ∧ r.prayerName = name ∧ r.date = date := by
  have hfound := List.find?_some h
  exact ⟨List.mem_of_find?_eq_some h, of_decide_eq_true hfound⟩

/-- What follows `get_or_create` marks the record. -/
theorem exec_markPrayer (r : PrayerCompletion) (status : Json) (db : Planner) :
    ((Prog.read (·.now) >>= fun now =>
      Prog.write (·.updatePrayer (r.marked status.toStatus now)) >>= fun _ =>
        View.ofExcept status.replaced : View Unit).exec db)
      = db.updatePrayer (r.marked status.toStatus db.now) := by
  unfold Prog.exec
  simp only [Prog.run_bind, Prog.run_read, Prog.Outcome.andThen_ok, Prog.run_write]
  cases status.replaced <;> rfl

/-- The records after the `try` block. -/
theorem recorded_recordPrayer {dateStr : Json} {date' : Date}
    (hdate : dateStr.toDate env = .ok date') (name' : String) (status : Json) (name : String)
    (date : Date) : Recorded ((recordPrayer env name' dateStr status).exec db) name date ↔
      Recorded db name date ∨ (name = name' ∧ date = date' ∧ env.acceptsName name' = true) := by
  have hexec : (recordPrayer env name' dateStr status).exec db
      = (getOrCreatePrayer env name' date' >>= fun r => (Prog.read (·.now) >>= fun now =>
          Prog.write (·.updatePrayer (r.marked status.toStatus now)) >>= fun _ =>
            View.ofExcept status.replaced : View Unit)).exec db := by
    unfold recordPrayer
    rw [hdate]
    rfl
  rw [hexec]
  cases hfind : db.findPrayer name' date' with
  | some r =>
      obtain ⟨hr, hname, hrdate⟩ := findPrayer_eq_some hfind
      have hrun : (getOrCreatePrayer env name' date').run db = ⟨.ok r, db, []⟩ := by
        unfold getOrCreatePrayer
        simp only [Prog.run_bind, Prog.run_read, Prog.Outcome.andThen_ok, hfind]
        rfl
      rw [Prog.exec_bind, hrun]
      dsimp only
      rw [Prog.exec_eq_of_run hrun, exec_markPrayer, recorded_updatePrayer hr]
      refine (or_iff_left_of_imp ?_).symm
      rintro ⟨rfl, rfl, -⟩
      exact ⟨r, hr, hname, hrdate⟩
  | none =>
      by_cases haccepts : env.acceptsName name' = true
      · have hrun : (getOrCreatePrayer env name' date').run db
            = ⟨.ok { newPrayer name' date' with id := db.prayerCompletions.next },
                db.createPrayer (newPrayer name' date'), []⟩ := by
          unfold getOrCreatePrayer
          simp only [Prog.run_bind, Prog.run_read, Prog.Outcome.andThen_ok, hfind, haccepts, if_true,
            Prog.run_command]
          rfl
        have hnew : { newPrayer name' date' with id := db.prayerCompletions.next }
            ∈ (db.createPrayer (newPrayer name' date')).prayerCompletions.rows :=
          (Table.mem_insert _ _ _ _).2 (.inr rfl)
        rw [Prog.exec_bind, hrun]
        dsimp only
        rw [Prog.exec_eq_of_run hrun, exec_markPrayer, recorded_updatePrayer hnew,
          recorded_createPrayer, and_iff_left haccepts]
      · have hrun : (getOrCreatePrayer env name' date').run db = ⟨.error .dataError, db, []⟩ := by
          unfold getOrCreatePrayer
          simp only [Prog.run_bind, Prog.run_read, Prog.Outcome.andThen_ok, hfind, haccepts]
          rfl
        rw [Prog.exec_bind, hrun]
        dsimp only
        rw [Prog.exec_eq_of_run hrun]
        exact (or_iff_left_of_imp fun h => absurd h.2.2 haccepts).symm

/-- The records after a request. -/
theorem recorded_toggle (name' body name : String) (date : Date) :
    Recorded ((togglePrayerCompletion env name' body).exec db) name date ↔
      Recorded db name date ∨
        (name = name' ∧ toggleDate env body = some date ∧ env.acceptsName name' = true) := by
  unfold togglePrayerCompletion toggleDate
  cases env.jsonLoads body with
  | none => exact (or_iff_left fun h => by cases h.2.1).symm
  | some data =>
      dsimp only
      cases hread : readToggle data with
      | error x => exact (or_iff_left fun h => by cases h.2.1).symm
      | ok p =>
          obtain ⟨dateStr, status⟩ := p
          simp only [View.ofExcept, Prog.ret_bind]
          by_cases hfalsy : (dateStr.getD .null).falsy = true
          · simp only [hfalsy, if_true]
            exact (or_iff_left fun h => by cases h.2.1).symm
          · rw [if_neg hfalsy, if_neg hfalsy]
            rw [Prog.exec_bind_of_silent (fun v db₁ => by split <;> rfl), Prog.exec_attempt]
            cases hdate : (dateStr.getD .null).toDate env with
            | error x =>
                have hraises : (recordPrayer env name' (dateStr.getD .null) status).exec db = db := by
                  unfold recordPrayer
                  rw [hdate]
                  rfl
                rw [hraises]
                exact (or_iff_left fun h => by cases h.2.1).symm
            | ok date' =>
                rw [recorded_recordPrayer hdate]
                refine or_congr_right (and_congr_right fun _ => and_congr_left fun _ => ?_)
                exact eq_comm.trans Option.some_inj.symm

end Toggle

/-! ## Runs -/

/-- A request: the name in the URL and the body. -/
structure ToggleRequest where
  prayerName : String
  body : String

/-- The database after a request. -/
def toggle (env : PrayerEnv) (db : Planner) (r : ToggleRequest) : Planner :=
  (togglePrayerCompletion env r.prayerName r.body).exec db

/-- The records after some requests are those there were and those the requests are about. -/
theorem recorded_last (env : PrayerEnv) (requests : List ToggleRequest) (db : Planner)
    (name : String) (date : Date) : Recorded (Run.last (toggle env) db requests) name date ↔
      Recorded db name date ∨ ∃ r ∈ requests, r.prayerName = name ∧
        toggleDate env r.body = some date ∧ env.acceptsName name = true := by
  induction requests generalizing db with
  | nil => simp [Run.last]
  | cons r requests ih =>
      have hstep := @recorded_toggle env db r.prayerName r.body name date
      rw [Run.last_cons, ih, toggle, hstep, or_assoc]
      refine or_congr_right ?_
      constructor
      · rintro (⟨rfl, hdate, haccepts⟩ | ⟨r', hr', h⟩)
        · exact ⟨r, List.mem_cons_self, rfl, hdate, haccepts⟩
        · exact ⟨r', List.mem_cons_of_mem _ hr', h⟩
      · rintro ⟨r', hr', hname, hdate, haccepts⟩
        rcases List.mem_cons.1 hr' with rfl | hr'
        · exact .inl ⟨hname.symm, hdate, hname ▸ haccepts⟩
        · exact .inr ⟨r', hr', hname, hdate, haccepts⟩

/-- **After any requests the statistics of a range agree exactly when none of them has recorded an
undeclared name** for a date in the range, and no record had one before. -/
theorem consistent_last_iff (env : PrayerEnv) (db : Planner) (requests : List ToggleRequest)
    (startDate endDate : Date) :
    Consistent (Run.last (toggle env) db requests) startDate endDate ↔
      (∀ r ∈ db.prayerCompletions.rows, startDate.inRange endDate r.date = true →
        Declared r.prayerName) ∧
      ∀ r ∈ requests, ∀ date, toggleDate env r.body = some date →
        startDate.inRange endDate date = true → env.acceptsName r.prayerName = true →
          Declared r.prayerName := by
  have hrecorded := recorded_last env requests db
  rw [consistent_iff_declared]
  constructor
  · intro h
    constructor
    · intro r hr hin
      obtain ⟨r', hr', hname, hdate⟩ := (hrecorded r.prayerName r.date).2 (.inl ⟨r, hr, rfl, rfl⟩)
      rw [← hname]
      exact h r' hr' (hdate ▸ hin)
    · intro r hr date hdate hin haccepts
      obtain ⟨r', hr', hname, hdate'⟩ :=
        (hrecorded r.prayerName date).2 (.inr ⟨r, hr, rfl, hdate, haccepts⟩)
      rw [← hname]
      exact h r' hr' (hdate' ▸ hin)
  · rintro ⟨hbefore, hrequests⟩ r hr hin
    rcases (hrecorded r.prayerName r.date).1 ⟨r, hr, rfl, rfl⟩ with
      ⟨r', hr', hname, hdate⟩ | ⟨req, hreq, hname, hdate, haccepts⟩
    · rw [← hname]
      exact hbefore r' hr' (hdate ▸ hin)
    · rw [← hname]
      exact hrequests req hreq r.date hdate hin (hname ▸ haccepts)

/-- The body `b` marks a prayer of today. -/
def env : PrayerEnv where
  toPlannerEnv := { PlannerSample.env with
    jsonLoads := fun s => if s = "b" then some (.obj [("date", .str "d"), ("status", .str "prayed")])
      else none }
  strptimeDate := fun s => if s = "d" then some PlannerSample.today else none
  acceptsName := fun s => decide (s.length ≤ 20)

/-- One request with another name than the declared ones. -/
theorem undeclared_name_not_counted : ¬ ∀ (env : PrayerEnv) (now : DateTime)
    (requests : List ToggleRequest) (startDate endDate : Date),
    Consistent (Run.last (toggle env) (Planner.init now) requests) startDate endDate := by
  intro h
  have htotal := (h env ⟨PlannerSample.today, PlannerSample.minutes 60⟩ [⟨"friday", "b"⟩]
    PlannerSample.today PlannerSample.today).total
  revert htotal
  decide +kernel

end Prayers

end DailyScheduler
