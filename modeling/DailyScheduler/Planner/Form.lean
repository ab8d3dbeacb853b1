import DailyScheduler.Planner.Limit

set_option autoImplicit false

/-! # The form, for a new task and for an old one

`create_personal_task` and `edit_personal_task` submit the same form. Its `clean` counts the
non-negotiable tasks that the database has on the date, and so the task that is being edited too.
-/

namespace DailyScheduler

open Calendar

namespace Form

variable (db : Planner) (edited : Option Nat) (f : TaskFields)

/-- The non-negotiable tasks on a date, without the one that is being edited. -/
def otherNonNegotiable (d : Date) : Nat :=
  db.personalTasks.rows.countP fun t => t.countsOn d && decide (some t.id ≠ edited)

/-- The task that is being edited is stored as a non-negotiable one on the date. -/
def countsItself (d : Date) : Bool :=
  (edited.bind db.personalTasks.find?).any fun t => t.countsOn d

/-- What the form asks for: the task ends after it starts, is not in the past and, when it is
non-negotiable, has at most two others on its date. -/
structure Admissible : Prop where
  ordered : f.startTime.micros < f.endTime.micros
  present : db.now.date.ordinal ≤ f.date.ordinal
  room : f.category ≠ .nonNegotiable ∨ otherNonNegotiable db edited f.date ≤ 2

/-- The task that is being edited is itself one of three that are non-negotiable on the date, and
stays so. -/
structure AtLimit : Prop where
  ordered : f.startTime.micros < f.endTime.micros
  present : db.now.date.ordinal ≤ f.date.ordinal
  category : f.category = .nonNegotiable
  others : otherNonNegotiable db edited f.date = 2
  counted : countsItself db edited f.date = true

section Proofs

variable {db edited f}

theorem cleanFields_eq_none_iff : db.cleanFields f = none ↔
    f.startTime.micros < f.endTime.micros ∧ db.now.date.ordinal ≤ f.date.ordinal ∧
      (f.category ≠ .nonNegotiable ∨ db.nonNegotiable f.date ≤ 2) := by
  unfold Planner.cleanFields
  constructor
  · intro h
    split at h
    · cases h
    · split at h
      · cases h
      · split at h
        · cases h
        · rename_i hroom
          refine ⟨by omega, by omega, ?_⟩
          by_contra hfull
          rw [not_or, not_not] at hfull
          exact hroom ⟨hfull.1, by omega⟩
  · rintro ⟨hordered, hpresent, hroom⟩
    rw [if_neg (by omega), if_neg (by omega), if_neg]
    rintro ⟨hcategory, hfull⟩
    rcases hroom with hroom | hroom
    · exact hroom hcategory
    · omega

/-- A task that does not count is left out without a difference, one that counts makes one. -/
theorem nonNegotiable_eq_other (d : Date) : db.nonNegotiable d
    = otherNonNegotiable db edited d + if countsItself db edited d then 1 else 0 := by
  rw [nonNegotiable_eq, nonNegotiableOn, otherNonNegotiable, countsItself]
  cases edited with
  | none => simp
  | some id =>
      have hothers : db.personalTasks.rows.countP
            (fun t => t.countsOn d && decide (some t.id ≠ some id))
          = db.personalTasks.rows.countP fun t => t.countsOn d && decide (t.id ≠ id) := by
        refine List.countP_congr fun t _ => ?_
        simp
      rw [hothers]
      exact Table.countP_without db.personalTasks id fun t => t.countsOn d

end Proofs

/-- **The form does what it asks for except at the limit**: it refuses to keep the third
non-negotiable task of a date as it is. -/
theorem clean_iff_admissible : (db.cleanFields f = none ↔ Admissible db edited f) ↔
    ¬ AtLimit db edited f := by
  have hcount := @nonNegotiable_eq_other db edited f.date
  rw [cleanFields_eq_none_iff]
  constructor
  · rintro hagree hlimit
    rw [if_pos hlimit.counted, hlimit.others] at hcount
    have hroom : otherNonNegotiable db edited f.date ≤ 2 := hlimit.others.le
    obtain ⟨-, -, hclean⟩ := hagree.2 ⟨hlimit.ordered, hlimit.present, .inr hroom⟩
    rcases hclean with hclean | hclean
    · exact hclean hlimit.category
    · omega
  · intro hlimit
    constructor
    · rintro ⟨hordered, hpresent, hroom⟩
      refine ⟨hordered, hpresent, hroom.imp_right fun hle => ?_⟩
      omega
    · rintro ⟨hordered, hpresent, hroom⟩
      refine ⟨hordered, hpresent, ?_⟩
      by_contra hfull
      rw [not_or, not_not] at hfull
      -- the tasks in the database are one too many, so the edited one is among them
      have hle := hroom.resolve_left fun h => h hfull.1
      split at hcount
      · rename_i hcounted
        exact hlimit ⟨hordered, hpresent, hfull.1, by omega, hcounted⟩
      · omega

/-- A planner with three non-negotiable tasks on one day. -/
def threeTasks : Planner :=
  let fields : TaskFields := ⟨"T", none, PlannerSample.today, PlannerSample.minutes 600,
    PlannerSample.minutes 630, .nonNegotiable⟩
  ((morningPlanner.createTask fields.newTask).createTask fields.newTask).createTask fields.newTask

/-- Nothing of the third task is changed but its title. -/
theorem third_task_refused : ¬ ∀ (db : Planner) (edited : Option Nat) (f : TaskFields),
    db.cleanFields f = none ↔ Admissible db edited f := by
  intro h
  have hrefused := h threeTasks (some 3) ⟨"New", none, PlannerSample.today,
    PlannerSample.minutes 600, PlannerSample.minutes 630, .nonNegotiable⟩
  have haccepted := hrefused.2 ⟨by decide +kernel, by decide +kernel, .inr (by decide +kernel)⟩
  revert haccepted
  decide +kernel

end Form

end DailyScheduler
