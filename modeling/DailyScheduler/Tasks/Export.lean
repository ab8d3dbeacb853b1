import DailyScheduler.Model.ImportExport
import DailyScheduler.Model.Sample
import DailyScheduler.Tasks.Save

set_option autoImplicit false

/-! # Exporting a task

`to_dict` reads the fields of the task one after the other and calls `_schedule_time` in between, which
moves `scheduled_time` and uses up repeats on the object itself. `repeat` is read before the call and
`scheduled_time` is what it returns.
-/

namespace DailyScheduler

open AtomicProg

namespace Task

/-- `to_dict`, and the object that it leaves behind. -/
def toDictAfter (env : Env) (t : Task) : Py (Task × Except PyError TaskDict) := do
  let args ← Prog.read fun w => w.taskArgs t.id
  let kwargs ← Prog.read fun w => w.taskKwargs t.id
  let now ← utcnow
  match t.scheduleTime env now with
  | .error x => pure (t, .error x)
  | .ok t' =>
      match t'.scheduledTime with
      | none => pure (t', .error (.attributeError "isoformat"))
      | some s => pure (t', .ok (t.dict args kwargs (some s)))

end Task

namespace Export

variable (env : Env) (t : Task) (w : World)

/-- The object after one call of `to_dict`, and the dictionary or the exception of the call. -/
def called : Task × Except PyError TaskDict :=
  match t.scheduleTime env w.now with
  | .error x => (t, .error x)
  | .ok t' =>
      match t'.scheduledTime with
      | none => (t', .error (.attributeError "isoformat"))
      | some s => (t', .ok (t.dict (w.taskArgs t.id) (w.taskKwargs t.id) (some s)))

/-- `to_dict` only observes the task: a second call returns the same dictionary, its schedule time
and repeats are a pair that `_schedule_time` assigns together, and the object keeps its own. -/
structure Observes : Prop where
  again : ∀ d, (called env t w).2 = .ok d → (called env (called env t w).1 w).2 = .ok d
  pair : ∀ d, (called env t w).2 = .ok d → ∃ t', t.scheduleTime env w.now = .ok t' ∧
    d.scheduledTime = t'.scheduledTime ∧ d.repeat = t'.repeat
  time : (called env t w).1.scheduledTime = t.scheduledTime
  repeats : (called env t w).1.repeat = t.repeat

/-- `_schedule_time` has nothing to move: a cron task has the next time of its cron string; an overdue
repeatable task has fewer repeats left than intervals have passed. -/
def Settled : Prop :=
  match t.taskType with
  | .once => True
  | .cron =>
      match t.cronString with
      | none => t.scheduledTime = none
      | some s => ∀ d, (env.croniter s).bind (· w.now) = some d → t.scheduledTime = some d
  | .repeatable => ∀ s i, t.scheduledTime = some s → s < w.now → t.intervalSeconds = .ok i → i ≠ 0 →
      Task.gap w.now s (secs i) = 0 ∨
        ∃ r : Nat, t.repeat = some r ∧ (r : Int) < Task.gap w.now s (secs i)

section Proofs

variable {env t w}

theorem run_toDictAfter :
    (t.toDictAfter env).run w = ⟨.ok (called env t w), w, []⟩ := by
  unfold Task.toDictAfter called utcnow
  simp only [Prog.run_bind, Prog.run_read, Prog.Outcome.andThen_ok]
  cases t.scheduleTime env w.now with
  | error x => rfl
  | ok t' =>
      dsimp only
      cases t'.scheduledTime <;> rfl

/-- `to_dict` is what remains when nobody looks at the object. -/
theorem run_toDict : (t.toDict env).run w = ⟨(called env t w).2, w, []⟩ := by
  unfold Task.toDict called utcnow
  simp only [Prog.run_bind, Prog.run_read, Prog.Outcome.andThen_ok]
  cases t.scheduleTime env w.now with
  | error x => rfl
  | ok t' =>
      dsimp only
      cases t'.scheduledTime <;> rfl

/-- Nothing but the schedule time and the repeats is ever moved. -/
theorem eq_of_scheduleTime {t' : Task} {now : Int} (h : t.scheduleTime env now = .ok t')
    (htime : t'.scheduledTime = t.scheduledTime) (hrepeats : t'.repeat = t.repeat) : t' = t := by
  have hframe := Task.scheduleTime_frame h
  rw [hframe, htime, hrepeats]

/-- The interval by which an overdue task would be moved. -/
theorem advanceSchedule_eq_self_iff {s i : Int} (hs : t.scheduledTime = some s) (hi : i ≠ 0)
    (now : Int) : t.advanceSchedule now s (secs i) = t ↔ Task.gap now s (secs i) = 0 ∨
      ∃ r : Nat, t.repeat = some r ∧ (r : Int) < Task.gap now s (secs i) := by
  by_cases hfew : ∃ r : Nat, t.repeat = some r ∧ (r : Int) < Task.gap now s (secs i)
  · obtain ⟨r, hr, hlt⟩ := hfew
    exact iff_of_true (Task.advanceSchedule_of_few hr hlt) (.inr ⟨r, hr, hlt⟩)
  · have henough : ∀ r, t.repeat = some r → Task.gap now s (secs i) ≤ r := by
      intro r hr
      by_contra hlt
      exact hfew ⟨r, hr, not_le.1 hlt⟩
    rw [Task.advanceSchedule_of_enough henough, or_iff_left hfew]
    have hstep : secs i ≠ 0 := by
      unfold secs
      omega
    constructor
    · intro h
      have htime := congrArg Task.scheduledTime h
      rw [hs] at htime
      have hmoved : s + secs i * Task.gap now s (secs i) = s := Option.some_inj.1 htime
      have hzero : secs i * Task.gap now s (secs i) = 0 := by omega
      exact (Int.mul_eq_zero.1 hzero).resolve_left hstep
    · intro h
      rw [h, Int.mul_zero, Int.add_zero, ← hs]
      have hrepeats : (t.repeat.map fun r : Nat => ((r : Int) - 0).toNat) = t.repeat := by
        cases t.repeat <;> simp
      rw [hrepeats]

/-- A settled task is what `_schedule_time` leaves as it is. -/
theorem settled_iff : Settled env t w ↔ ∀ t', t.scheduleTime env w.now = .ok t' → t' = t := by
  unfold Settled
  cases hty : t.taskType with
  | once =>
      refine iff_of_true trivial fun t' ht' => ?_
      rw [Task.scheduleTime_once hty] at ht'
      exact (Except.ok.inj ht').symm
  | cron =>
      dsimp only
      cases hc : t.cronString with
      | none =>
          have htime : t.scheduleTime env w.now = .ok { t with scheduledTime := none } := by
            unfold Task.scheduleTime
            rw [hty, hc]
          rw [htime]
          constructor
          · intro hnone t' ht'
            exact eq_of_scheduleTime (htime.trans ht') (by cases ht'; exact hnone.symm)
              (by cases ht'; rfl)
          · intro h
            have hsame := h _ rfl
            exact (congrArg Task.scheduledTime hsame).symm
      | some c =>
          have htime := @Task.scheduleTime_cron env t w.now c hty hc
          cases hnext : (env.croniter c).bind (· w.now) with
          | none =>
              rw [hnext] at htime
              rw [htime]
              refine iff_of_true (fun d hd => ?_) fun t' ht' => by cases ht'
              rw [hnext] at hd
              cases hd
          | some d =>
              rw [hnext] at htime
              rw [htime]
              constructor
              · intro hsettled t' ht'
                exact eq_of_scheduleTime (htime.trans ht')
                  (by cases ht'; exact (hsettled d hnext).symm) (by cases ht'; rfl)
              · intro h d' hd'
                obtain rfl := Option.some_inj.1 (hnext.symm.trans hd')
                have hsame := h _ rfl
                exact (congrArg Task.scheduledTime hsame).symm
  | repeatable =>
      dsimp only
      cases hs : t.scheduledTime with
      | none =>
          have htime : t.scheduleTime env w.now = .error (.typeError "'>=' not supported") := by
            unfold Task.scheduleTime
            rw [hty, hs]
          rw [htime]
          exact iff_of_true (fun s i hs' => by cases hs') fun t' ht' => by cases ht'
      | some s =>
          by_cases hlate : s < w.now
          · cases hi : t.intervalSeconds with
            | error x =>
                have htime : t.scheduleTime env w.now = .error x := by
                  unfold Task.scheduleTime
                  rw [hty, hs, hi]
                  exact if_neg (not_le.2 hlate)
                rw [htime]
                exact iff_of_true (fun s i _ _ hi' => by cases hi') fun t' ht' => by cases ht'
            | ok i =>
                rw [Task.scheduleTime_repeatable_late hty hs hlate hi]
                by_cases hzero : i = 0
                · rw [if_pos hzero]
                  refine iff_of_true (fun s' i' _ _ hi' hne => ?_) fun t' ht' => by cases ht'
                  cases hi'
                  exact absurd hzero hne
                · rw [if_neg hzero]
                  have hself := advanceSchedule_eq_self_iff hs hzero w.now
                  constructor
                  · intro h t' ht'
                    cases ht'
                    exact hself.2 (h s i rfl hlate rfl hzero)
                  · rintro h s' i' hs' - hi' -
                    cases hs'
                    cases hi'
                    exact hself.1 (h _ rfl)
          · rw [Task.scheduleTime_repeatable hty hs (not_lt.1 hlate)]
            refine iff_of_true (fun s' i hs' hlt => ?_) fun t' ht' => (Except.ok.inj ht').symm
            cases hs'
            exact absurd hlt hlate

end Proofs

/-- **`to_dict` observes a task exactly when there is nothing to move.** -/
theorem observes_iff (env : Env) (t : Task) (w : World) : Observes env t w ↔ Settled env t w := by
  rw [settled_iff]
  constructor
  · intro h t' ht'
    have hafter : (called env t w).1 = t' := by
      unfold called
      rw [ht']
      dsimp only
      cases t'.scheduledTime <;> rfl
    have htime := h.time
    have hrepeats := h.repeats
    rw [hafter] at htime hrepeats
    exact eq_of_scheduleTime ht' htime hrepeats
  · intro h
    have hafter : (called env t w).1 = t := by
      unfold called
      cases ht' : t.scheduleTime env w.now with
      | error x => rfl
      | ok t' =>
          obtain rfl := h t' ht'
          dsimp only
          cases t'.scheduledTime <;> rfl
    refine ⟨fun d hd => ?_, fun d hd => ?_, ?_, ?_⟩
    · rw [hafter]
      exact hd
    · unfold called at hd
      cases ht' : t.scheduleTime env w.now with
      | error x =>
          rw [ht'] at hd
          cases hd
      | ok t' =>
          obtain rfl := h t' ht'
          rw [ht'] at hd
          dsimp only at hd
          refine ⟨t', rfl, ?_⟩
          cases hs : t'.scheduledTime with
          | none =>
              rw [hs] at hd
              cases hd
          | some s =>
              rw [hs] at hd
              cases hd
              exact ⟨rfl, rfl⟩
    · rw [hafter]
    · rw [hafter]

/-- A task that is one second late, repeated every minute and twice more. -/
def overdue : Task :=
  { Sample.onceTask 0 with
    taskType := .repeatable
    interval := some 1
    intervalUnit := some .minutes
    «repeat» := some 2 }

/-- Exporting the task uses up one of its repeats. -/
theorem repeats_used_up : ¬ ∀ (env : Env) (t : Task) (w : World), Observes env t w := by
  intro h
  have hobserves := h Sample.env overdue (World.init 1000000)
  have hrepeats := hobserves.repeats
  revert hrepeats
  decide +kernel

end Export

end DailyScheduler
