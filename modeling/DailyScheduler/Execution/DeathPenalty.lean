import DailyScheduler.Model.Timeouts

set_option autoImplicit false

/-! # Nested timeouts

A block is protected as long as its handler is installed and an alarm is pending that fires in time.
Nothing but its own alarm takes that from it until a block inside it is left; and every block that is
left, in whatever way, takes it from the block around it: it cancels the one alarm of the process.
-/

namespace DailyScheduler.Timeouts

/-- The block is protected: its handler is installed, and an alarm is pending that fires no later than its
own was to. -/
structure Protected (b : Block) (p : Process) : Prop where
  handler : p.handler = some b.id
  alarm : ∃ t, p.alarm = some t ∧ ∀ d, b.deadline = some d → t ≤ d

/-- A block is protected when it is entered, if it has a timeout at all. -/
theorem protected_of_setup {p : Process} (hmain : p.mainThread = true) {timeout : Int}
    (htimeout : timeout % 2 ^ 32 ≠ 0) : Protected (p.block timeout) (p.setupDeathPenalty timeout) := by
  unfold Process.setupDeathPenalty
  rw [if_pos hmain]
  refine ⟨rfl, p.now + timeout % 2 ^ 32 * 1000000, if_neg htimeout, fun d hd => ?_⟩
  unfold Process.block alarmTime at hd
  rw [if_neg htimeout] at hd
  exact Int.le_of_eq (Option.some_inj.1 hd)

/-! ## What code does to the alarm -/

section Exec

variable {code : Code} {open' : List Block} {p : Process}

@[simp] theorem mainThread_setup (timeout : Int) :
    (p.setupDeathPenalty timeout).mainThread = p.mainThread := by
  unfold Process.setupDeathPenalty
  dsimp only
  split <;> rfl

@[simp] theorem mainThread_cancel (late : Bool) :
    (p.cancelDeathPenalty late).mainThread = p.mainThread := by
  unfold Process.cancelDeathPenalty
  split
  · split <;> rfl
  · rfl

theorem alarm_cancel (hmain : p.mainThread = true) (late : Bool) :
    (p.cancelDeathPenalty late).alarm = none := by
  unfold Process.cancelDeathPenalty
  rw [if_pos hmain]
  split <;> rfl

theorem mainThread_runFor (d : Nat) (raises : Bool) :
    (runFor d raises p).2.mainThread = p.mainThread := by
  unfold runFor
  dsimp only
  split
  · rfl
  · split <;> rfl

/-- Code stays in its thread, and no alarm is pending after a block that it has left. -/
theorem exec_inv (hmain : p.mainThread = true) : (exec code open' p).process.mainThread = true ∧
    ∀ x ∈ (exec code open' p).left, x.2.alarm = none := by
  induction code generalizing open' p with
  | run d raises =>
      refine ⟨(mainThread_runFor d raises).trans hmain, fun x hx => ?_⟩
      cases hx
  | seq a b iha ihb =>
      obtain ⟨hthread, hleft⟩ := @iha open' p hmain
      unfold exec
      dsimp only
      split
      · obtain ⟨hthread', hleft'⟩ := @ihb open' _ hthread
        exact ⟨hthread', fun x hx => (List.mem_append.1 hx).elim (hleft x) (hleft' x)⟩
      · exact ⟨hthread, hleft⟩
  | within timeout late body ih =>
      obtain ⟨hthread, hleft⟩ := @ih (p.block timeout :: open') (p.setupDeathPenalty timeout)
        ((mainThread_setup timeout).trans hmain)
      unfold exec
      dsimp only
      split
      · exact ⟨hthread, hleft⟩
      · refine ⟨(mainThread_cancel late).trans hthread, fun x hx => ?_⟩
        rcases List.mem_append.1 hx with hx | hx
        · exact hleft x hx
        · obtain ⟨b, -, rfl⟩ := Option.map_eq_some_iff.1 (Option.mem_toList.1 hx)
          exact alarm_cancel hthread late
  | catching body handler ihb ihh =>
      obtain ⟨hthread, hleft⟩ := @ihb open' p hmain
      unfold exec
      dsimp only
      split
      · obtain ⟨hthread', hleft'⟩ := @ihh open' _ hthread
        exact ⟨hthread', fun x hx => (List.mem_append.1 hx).elim (hleft x) (hleft' x)⟩
      · exact ⟨hthread, hleft⟩

/-- The alarm and its handler are what they were, or the alarm has fired. -/
def KeptOrFired (p q : Process) : Prop :=
  (q.alarm = p.alarm ∧ q.handler = p.handler) ∨ q.alarm = none

theorem KeptOrFired.trans {q r : Process} (h : KeptOrFired p q) (h' : KeptOrFired q r) :
    KeptOrFired p r := by
  rcases h' with ⟨halarm, hhandler⟩ | hnone
  · rcases h with ⟨halarm', hhandler'⟩ | hnone
    · exact .inl ⟨halarm.trans halarm', hhandler.trans hhandler'⟩
    · exact .inr (halarm.trans hnone)
  · exact .inr hnone

/-- Code inside a block that leaves no further block inside it takes the alarm from it only by letting it
fire. -/
theorem keptOrFired_of_left_nil (hopen : open' ≠ []) (hleft : (exec code open' p).left = [])
    (hending : (exec code open' p).ending ≠ .killed) : KeptOrFired p (exec code open' p).process := by
  induction code generalizing p with
  | run d raises =>
      unfold exec runFor
      dsimp only
      split
      · exact .inl ⟨rfl, rfl⟩
      · split
        · exact .inr rfl
        · exact .inl ⟨rfl, rfl⟩
  | seq a b iha ihb =>
      unfold exec at hleft hending ⊢
      dsimp only at hleft hending ⊢
      cases hend : (exec a open' p).ending with
      | returned =>
          rw [hend] at hleft hending
          obtain ⟨hlefta, hleftb⟩ := List.append_eq_nil_iff.1 hleft
          have ha := iha hlefta (by rw [hend]; decide)
          exact ha.trans (ihb hleftb hending)
      | raised =>
          rw [hend] at hleft hending
          exact iha hleft hending
      | killed =>
          rw [hend] at hending
          exact (hending hend).elim
  | within timeout late body ih =>
      unfold exec at hleft hending ⊢
      dsimp only at hleft hending ⊢
      split at hleft
      · rename_i hkilled
        rw [hkilled] at hending
        exact (hending hkilled).elim
      · obtain ⟨b, rest, rfl⟩ := List.exists_cons_of_ne_nil hopen
        simp at hleft
  | catching body handler ihb ihh =>
      unfold exec at hleft hending ⊢
      dsimp only at hleft hending ⊢
      cases hend : (exec body open' p).ending with
      | returned =>
          rw [hend] at hleft hending
          exact ihb hleft hending
      | raised =>
          rw [hend] at hleft hending
          obtain ⟨hleftb, hlefth⟩ := List.append_eq_nil_iff.1 hleft
          have hb := ihb hleftb (by rw [hend]; decide)
          exact hb.trans (ihh hlefth hending)
      | killed =>
          rw [hend] at hending
          exact (hending hend).elim

end Exec

/-- No block is protected after a block inside it was left. -/
theorem never_protected (code : Code) (open' : List Block) (p : Process) (hmain : p.mainThread = true) :
    ∀ x ∈ (exec code open' p).left, ¬ Protected x.1 x.2 := by
  intro x hx h
  obtain ⟨t, ht, -⟩ := h.alarm
  rw [(exec_inv hmain).2 x hx] at ht
  cases ht

/-! ## A sample -/

/-- The main thread, before any block. -/
def mainProcess : Process := ⟨0, none, none, 0, true⟩

/-- A job that may run for ten seconds, whose function takes one, and then its success callback another
one. -/
def sampleJob : Job where
  timeout := 10
  late := false
  func := .run 1000000 false
  onSuccess := some ⟨60, false, .run 1000000 false⟩
  onFailure := none

/-- The work of the worker after `sampleJob`'s callback, within the job's timeout. -/
def sampleCode : Code :=
  .within 10 false (.seq (queuePerformJob sampleJob) (.run 60000000 false))

theorem sample_never_protected : (exec sampleCode [] mainProcess).left.length = 1
    ∧ ∀ x ∈ (exec sampleCode [] mainProcess).left, ¬ Protected x.1 x.2 :=
  ⟨by decide, never_protected sampleCode [] mainProcess rfl⟩

/-- The callback of a job is left and no alarm is pending; a minute later the job has not been stopped. -/
theorem callback_unprotected :
    (¬ ∀ x ∈ (exec (workerPerformJob 300 sampleJob nothing) [] mainProcess).left, Protected x.1 x.2) ∧
      (exec sampleCode [] mainProcess).ending = .returned := by
  refine ⟨fun h => ?_, by decide⟩
  have hmem : (⟨0, some 10000000⟩, ⟨2000000, none, none, 2, true⟩) ∈
      (exec (workerPerformJob 300 sampleJob nothing) [] mainProcess).left := by decide
  obtain ⟨t, ht, -⟩ := (h _ hmem).alarm
  cases ht

end DailyScheduler.Timeouts
