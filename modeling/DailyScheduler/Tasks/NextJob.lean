import DailyScheduler.Concurrency.Dequeue
import DailyScheduler.Scheduling.Isolation
import DailyScheduler.Tasks.Edit
import DailyScheduler.Tasks.Repeats

set_option autoImplicit false

/-! # One job at a time

`_schedule` makes the next job of a task when `job_name` names none that waits or runs. The registries
hold at most one such job as long as that finding is right: the callbacks, which forget `job_name`
whichever job has ended, must not find an earlier job still waiting.
-/

namespace DailyScheduler.NextJob

open AtomicProg Transfer TaskEdit

/-- The job waits in a scheduled or a queued registry. -/
def Waits (n : JobName) (w : World) : Prop :=
  ∃ q, w.inRegistry q .scheduled n ∨ w.inRegistry q .queued n

/-- The scheduled and queued registries hold at most one of the jobs that `_schedule` created for the
task. -/
def AtMostOne (id : Nat) (c : Config World Event) : Prop :=
  ∀ n ∈ scheduledFor id c.2, ∀ m ∈ scheduledFor id c.2, Waits n c.1 → Waits m c.1 → n = m

/-! ## Runs -/

inductive Act where
  | tick (d : Nat)
  | save (x : Task) (clean scheduleJob : Bool)
  | enqueueToRun (x : Task)
  /-- `enqueue_scheduled_jobs`. -/
  | pass (s : WorkerScheduler)
  | dequeue (queues : List Queue) (timeout : Option Int) (fuel : Nat)
  /-- `prepare_for_execution`. -/
  | start (q : Queue) (job : JobModel) (worker : WorkerName)
  /-- `success_callback` or `failure_callback`. -/
  | callback (job : JobModel) (ending : Repeats.Ending)
  /-- What the worker does after the callback. -/
  | finish (q : Queue) (job : JobModel) (ending : Repeats.Ending)
  /-- The function of a job, and whatever else. -/
  | other (p : Py Unit)

def Act.program (env : Env) : Act → Py Unit
  | .tick d => Prog.write (·.advance d)
  | .save x clean scheduleJob => do
      let _ ← x.save env clean scheduleJob
  | .enqueueToRun x => x.enqueueToRun env
  | .pass s => do
      let _ ← s.enqueueScheduledJobs env
  | .dequeue queues timeout fuel => do
      let _ ← Queue.dequeueAny env queues timeout fuel
  | .start q job worker => do
      let _ ← After.get (job.prepareForExecution worker q.activeJobRegistry)
  | .callback job ending => Repeats.callback env job ending
  | .finish q job (.success result) => do
      let (job, _) ← After.get (q.jobHandleSuccess job result job.jobInfoTtl job.successTtl)
      let _ ← job.expire job.successTtl
  | .finish q job (.failure excString) => do
      let _ ← After.get (q.jobHandleFailure env .failed job excString)
  | .other p => p

def step (env : Env) (c : Config World Event) (a : Act) : Config World Event := (a.program env).after c

/-! ## Saves that make no second job -/

/-- If the save of `y` makes the next job, none that `_schedule` created for the task waits. -/
def Alone (env : Env) (y : Task) (c : Config World Event) : Prop :=
  Creates env y c.1 → ∀ n ∈ scheduledFor y.id c.2, ¬ Waits n c.1

/-- The object that `save` goes on with. -/
def checked (env : Env) (clean : Bool) (x : Task) (now : Int) : Except PyError Task :=
  if clean then x.clean env now else .ok x

/-- Whoever saves the task, whether an edit, a pass or the callback of any of its jobs, makes no job while
another waits. A job that is to run now gets another name, and the rest leaves the jobs of the task
alone. -/
def Allowed (env : Env) (id : Nat) (c : Config World Event) : Act → Prop
  | .save x clean true => x.id = id → ∀ y, checked env clean x c.1.now = .ok y → Alone env y c
  | .enqueueToRun x => x.id = id → x.nextName c.1 ∉ scheduledFor id c.2
  | .pass _ => ∀ r, c.1.tasks.find? id = some r → Alone env r c
  | .callback job ending => job.taskType.isSome = true → job.scheduledTaskId = some id →
      ∀ r, c.1.tasks.find? id = some r → Alone env (Repeats.ended r c.1.now ending) c
  | .other p => (∀ n ∈ scheduledFor id c.2, Waits n (p.exec c.1) → Waits n c.1) ∧
      ∀ n, .taskScheduled id n ∉ (p.run c.1).trace
  | _ => True

/-! ## Names -/

theorem colon_notMem_digits (w n : Nat) : ':' ∉ digits w n := by
  induction w generalizing n with
  | zero => exact List.not_mem_nil
  | succ w ih =>
      intro h
      rcases List.mem_append.1 h with h | h
      · exact ih _ h
      · have hlt : n % 10 < 10 := Nat.mod_lt n (by decide)
        have hne : ∀ d < 10, ':' ≠ Char.ofNat (48 + d) := by decide
        exact hne _ hlt (List.mem_singleton.1 h)

theorem colon_notMem_strftime (t : Int) : ':' ∉ strftimeChars t := by
  unfold strftimeChars
  simp only [List.mem_append, colon_notMem_digits, or_self, not_false_eq_true]

/-- A name that `_next_job_id` made has the id of its task. -/
theorem id_of_nextJobId {x y : Task} {now now' : Int} (h : x.nextJobId now = y.nextJobId now') :
    x.id = y.id := by
  have hsplit : ∀ (x : Task) (now : Int), (x.nextJobId now).toList
      = (x.queue.toList ++ ':' :: (toString x.id).toList) ++ ':' :: strftimeChars now := by
    intro x now
    unfold Task.nextJobId strftime
    simp [String.toList_append, List.append_assoc]
  have hchars := congrArg String.toList h
  rw [hsplit, hsplit] at hchars
  have hstamp := Rescheduling.eq_of_append_colon hchars (colon_notMem_strftime now)
    (colon_notMem_strftime now')
  have hsame : y.nextJobId now' = y.nextJobId now := by
    unfold Task.nextJobId strftime
    rw [hstamp]
  exact Rescheduling.id_of_nextJobId (h.trans hsame)

/-! ## The invariant -/

/-- The names were made by `_next_job_id` for the task. -/
def NamesOf (id : Nat) (M : Set JobName) : Prop :=
  ∀ n ∈ M, ∃ x : Task, ∃ now, x.id = id ∧ n = x.nextJobId now

/-- The jobs of the task have names of its own, and at most one of them waits. -/
structure Single (id : Nat) (c : Config World Event) : Prop where
  one : AtMostOne id c
  named : NamesOf id (scheduledFor id c.2)

/-- The jobs that `_schedule` has created for the task are among `M`, and those of `M` that wait are among
`W`. -/
structure Within (id : Nat) (M W : Set JobName) (c : Config World Event) : Prop where
  made : scheduledFor id c.2 ⊆ M
  waiting : ∀ n ∈ M, Waits n c.1 → n ∈ W

/-- Besides, it is as late as in `w₀`, and the task `r`, if there is one, has a pending job if it had one
then. -/
structure Before (id : Nat) (r : Option Task) (w₀ : World) (M W : Set JobName)
    (c : Config World Event) : Prop extends Within id M W c where
  now : c.1.now = w₀.now
  pending : ∀ x, r = some x → x.Pending w₀ → x.Pending c.1

/-- The jobs of the task, and those of them that wait. -/
def waiting (id : Nat) (c : Config World Event) : Set JobName :=
  {n | n ∈ scheduledFor id c.2 ∧ Waits n c.1}

section Invariant

variable {env : Env} {id i : Nat} {r : Option Task} {x y : Task} {w₀ w w' : World} {M W : Set JobName}
  {c c' : Config World Event} {may : QueueName → JobName → Prop}

theorem Before.refl (r : Option Task) (c : Config World Event) :
    Before id r c.1 (scheduledFor id c.2) (waiting id c) c :=
  ⟨⟨fun _ hn => hn, fun _ hn hw => ⟨hn, hw⟩⟩, rfl, fun _ _ h => h⟩

/-- What holds at most one of the jobs there were before holds at most one. -/
theorem Single.within (h : Single id c) (h' : Within id (scheduledFor id c.2) (waiting id c) c') :
    Single id c' where
  one := fun n hn m hm hnw hmw => by
    obtain ⟨hn', hnw'⟩ := h'.waiting n (h'.made hn) hnw
    obtain ⟨hm', hmw'⟩ := h'.waiting m (h'.made hm) hmw
    exact h.one n hn' m hm' hnw' hmw'
  named := fun n hn => h.named n (h'.made hn)

/-- Registries in which no other job of the task waits, and a log that tells of no other. -/
theorem Within.of_frame {es : List Event} (h : Within id M W c)
    (hwaits : ∀ n ∈ M, Waits n w' → n ∉ W → Waits n c.1)
    (hlog : ∀ n, .taskScheduled id n ∈ es → n ∈ M) : Within id M W (w', c.2 ++ es) where
  made := fun n hn => (List.mem_append.1 hn).elim (fun hn => h.made hn) (hlog n)
  waiting := fun n hn hw => by
    by_contra hnot
    exact hnot (h.waiting n hn (hwaits n hn hw hnot))

/-- A name comes to wait only where it is added. -/
theorem waits_zadd {n m : JobName} {q : QueueName} {k : RegistryKind} {s : Int}
    (h : Waits n (w.zadd q k m s)) : (n = m ∧ (k = .scheduled ∨ k = .queued)) ∨ Waits n w := by
  obtain ⟨q', hin | hin⟩ := h
  · rcases (World.inRegistry_zadd ..).1 hin with ⟨-, hk, hn⟩ | hin
    · exact .inl ⟨hn, .inl hk.symm⟩
    · exact .inr ⟨q', .inl hin⟩
  · rcases (World.inRegistry_zadd ..).1 hin with ⟨-, hk, hn⟩ | hin
    · exact .inl ⟨hn, .inr hk.symm⟩
    · exact .inr ⟨q', .inr hin⟩

theorem waits_zrem {n m : JobName} {q : QueueName} {k : RegistryKind} (h : Waits n (w.zrem q k m)) :
    Waits n w := by
  obtain ⟨q', hin⟩ := h
  exact ⟨q', hin.imp (fun hin => ((World.inRegistry_zrem ..).1 hin).2)
    fun hin => ((World.inRegistry_zrem ..).1 hin).2⟩

/-- The registries are left alone. -/
theorem Within.same {t : List Event} (h : Within id M W (w, t)) (hreg : w'.registry = w.registry) :
    Within id M W (w', t) := by
  have hin : ∀ q k n, w'.inRegistry q k n ↔ w.inRegistry q k n := by
    intro q k n
    rw [World.inRegistry_iff, World.inRegistry_iff, hreg]
  refine ⟨h.made, fun n hn hw => h.waiting n hn ?_⟩
  obtain ⟨q, hq⟩ := hw
  exact ⟨q, hq.imp (hin _ _ _).1 (hin _ _ _).1⟩

theorem Before.same {t : List Event} (h : Before id r w₀ M W (w, t)) (hnow : w'.now = w.now)
    (hreg : w'.registry = w.registry) : Before id r w₀ M W (w', t) :=
  ⟨h.toWithin.same hreg, hnow.trans h.now,
    fun x hx hp => Transfer.Pending.of_eq (h.pending x hx hp) hreg⟩

theorem Before.event {t : List Event} (h : Before id r w₀ M W (w, t)) {e : Event}
    (he : ∀ n, e = .taskScheduled id n → n ∈ M) : Before id r w₀ M W (w, t ++ [e]) where
  made := fun n hn => (List.mem_append.1 hn).elim (fun hn => h.made hn)
    fun hn => he n (List.mem_singleton.1 hn).symm
  waiting := h.waiting
  now := h.now
  pending := h.pending

theorem pending_of_before {t : List Event} (h : Before id r w₀ M W (w, t))
    (hmono : ∀ (x : Task) n, x.jobName = some n → x.Pending w → x.Pending w') :
    ∀ x, r = some x → x.Pending w₀ → x.Pending w' := by
  intro x hx hp
  obtain ⟨n, hn, hin⟩ := h.pending x hx hp
  exact hmono x n hn ⟨n, hn, hin⟩

theorem Before.zadd {t : List Event} (h : Before id r w₀ M W (w, t)) {q : QueueName} {k : RegistryKind}
    {m : JobName} (hm : k = .scheduled ∨ k = .queued → m ∈ M → m ∈ W) (s : Int) :
    Before id r w₀ M W (w.zadd q k m s, t) where
  made := h.made
  waiting := fun n hn hw => by
    rcases waits_zadd hw with ⟨rfl, hk⟩ | hw
    · exact hm hk hn
    · exact h.waiting n hn hw
  now := h.now
  pending := pending_of_before h fun x n hn => Task.pending_zadd hn q k m s

/-- Scheduling a task under names that are free keeps the jobs where they are. -/
theorem sparedSave_before (hW : Rescheduling.Workers env) (hmay : ∀ q n, may q n → n ∈ M → n ∈ W)
    (hnew : i = id → ∀ n, (∀ q, may q n) → n ∈ M) :
    SparedSave env may i (Before id r w₀ M W) where
  save := fun w t q j sa _ h => h.same rfl rfl
  created := fun w t m h => h.event fun n he => nomatch he
  taskScheduled := fun w t m hm h => h.event fun n he => by
    have hsame : i = id ∧ m = n := by simpa using he
    exact hsame.2 ▸ hnew hsame.1 m hm
  schedule := fun w t q m s hm h => h.zadd (fun _ => hmay q m hm) s
  push := fun w t q m s _ hm h => by
    have hmoved : Before id r w₀ M W ((w.zrem q .scheduled m).zadd q .queued m s, t) := by
      refine ⟨⟨h.made, fun n hn hw => ?_⟩, h.now, ?_⟩
      · rcases waits_zadd hw with ⟨rfl, -⟩ | hw
        · exact hmay q n hm hn
        · exact h.waiting n hn (waits_zrem hw)
      · exact pending_of_before h fun x n hn => Task.pending_push hn q m s
    exact hmoved.event fun n he => nomatch he
  exec := fun q m hsync => absurd hsync (hW q)
  expire := fun w t w' es q m hsync => absurd hsync (hW q)
  user := fun q hsync => absurd hsync (hW q)

theorem sparedRow_before : SparedRow i (Before id r w₀ M W) := fun _ _ _ _ h => h.same rfl rfl

/-- The name of the next job of another task is none of the task's. -/
theorem freeName_other (hM : NamesOf id M) (hx : x.id ≠ id)
    {I : Config World Event → Prop} : FreeName (fun _ n => n ∈ M → n ∈ W) I x := by
  intro c w t _ _ _ q hn
  obtain ⟨y, now, hy, heq⟩ := hM _ hn
  exact absurd ((id_of_nextJobId heq).trans hy) hx

end Invariant

/-- The end of a program whose result is not used. -/
theorem after_ignore {α : Type} (p : Py α) (c : Config World Event) :
    (p >>= fun _ => (pure () : Py Unit)).after c = p.after c := by
  unfold Prog.after
  rw [exec_ignore, trace_ignore]

/-! ## The saves of the task -/

section Own

variable {env : Env} {id : Nat} {r : Option Task} {x y : Task} {w₀ w w' : World} {M W : Set JobName}
  {c c' : Config World Event}

/-- `_schedule` without a next time changes nothing. -/
theorem run_scheduleNext_idle (h : x.enabled = true →
    ∀ x', x.scheduleTime env w.now = .ok x' → x'.inThePast w.now ≠ .ok false) :
    ∃ v, (x.scheduleNext env).run w = ⟨v, w, []⟩ := by
  cases hen : x.enabled with
  | false =>
      rw [Task.run_scheduleNext_disabled hen]
      split <;> exact ⟨_, rfl⟩
  | true =>
      cases htime : x.scheduleTime env w.now with
      | error e => exact ⟨_, Task.run_scheduleNext_error hen htime⟩
      | ok x' =>
          rw [Task.run_scheduleNext hen htime]
          rcases hpast : x'.inThePast w.now with e | late
          · exact ⟨_, rfl⟩
          cases late with
          | false => exact absurd hpast (h hen x' htime)
          | true =>
              dsimp only
              split <;> exact ⟨_, rfl⟩

theorem run_schedule_idle (h : ¬ Creates env y w) :
    ∃ v w', (y.schedule env).run w = ⟨v, w', []⟩ ∧ w'.registry = w.registry := by
  have hnext : ¬ y.Pending w → y.enabled = true →
      ∀ y', y.scheduleTime env w.now = .ok y' → y'.inThePast w.now ≠ .ok false :=
    fun hp hen y' htime hfuture => h ⟨hen, hp, y', htime, hfuture⟩
  cases hjob : y.jobName with
  | none =>
      have hidle : ¬ y.Pending w := by
        rintro ⟨n, hn, -⟩
        cases hjob.symm.trans hn
      obtain ⟨v, hv⟩ := run_scheduleNext_idle (hnext hidle)
      exact ⟨v, w, (Task.run_schedule_of_none hjob w).trans hv, rfl⟩
  | some n =>
      cases hq : env.queues y.queue with
      | none =>
          refine ⟨.error (.queueNotFoundError y.queue), w, ?_, rfl⟩
          have hqueue : y.rqueue env = throw (.queueNotFoundError y.queue) := by
            unfold Task.rqueue getQueue
            rw [hq]
          unfold Task.schedule Task.isScheduled
          rw [hjob, hqueue]
          rfl
      | some isAsync =>
          by_cases hp : y.Pending w
          · exact ⟨.ok y, w, Task.run_schedule_of_pending hp hq, rfl⟩
          · have hforgotten : y.forgotten.enabled = true →
                ∀ y', y.forgotten.scheduleTime env (w.putTask y.forgotten).now = .ok y' →
                  y'.inThePast (w.putTask y.forgotten).now ≠ .ok false := by
              intro hen z hz
              have hz' : y.forgotten.scheduleTime env w.now = .ok z := hz
              rw [scheduleTime_forgotten] at hz'
              cases htime : y.scheduleTime env w.now with
              | error e =>
                  rw [htime] at hz'
                  cases hz'
              | ok y' =>
                  rw [htime] at hz'
                  cases hz'
                  exact hnext hp hen y' htime
            obtain ⟨v, hv⟩ := run_scheduleNext_idle hforgotten
            exact ⟨v, _, (Task.run_schedule_of_lost hjob hp hq).trans hv, rfl⟩

theorem not_creates_of_past {s : Int} (hty : y.taskType = .once) (hs : y.scheduledTime = some s)
    (hlate : s < w.now) : ¬ Creates env y w := by
  rintro ⟨-, -, y', htime, hfuture⟩
  rw [Task.scheduleTime_once hty] at htime
  cases htime
  have hcron : y.taskType ≠ .cron := by
    rw [hty]
    decide
  rw [Task.inThePast_of_some hcron hs, decide_eq_true hlate] at hfuture
  cases hfuture

/-- A save that makes no job leaves the registries and the log as they are. -/
theorem run_saveCleaned_idle (h : ¬ Creates env y w) :
    ∃ v w', (y.saveCleaned env true).run w = ⟨v, w', []⟩ ∧ w'.registry = w.registry := by
  have h' : ¬ Creates env y (w.putTask y) := h
  obtain ⟨v, w', hrun, hreg⟩ := run_schedule_idle h'
  rw [Task.run_saveCleaned, hrun]
  cases v with
  | error e => exact ⟨_, _, rfl, hreg⟩
  | ok z => exact ⟨_, _, rfl, hreg⟩

/-- A save of the task keeps one job, when none waits at a save that makes the next one. -/
theorem save_single (hW : Rescheduling.Workers env) (hid : y.id = id) (h : Single id c)
    (halone : Alone env y c) : Single id ((y.saveCleaned env true).after c) := by
  by_cases hcreates : Creates env y c.1
  · -- the new name is the only one that can come to wait
    let n₀ := y.nextJobId c.1.now
    let M : Set JobName := insert n₀ (scheduledFor id c.2)
    have hspared : SparedSave env (fun _ n => n = n₀) y.id (Before id none c.1 M {n₀}) :=
      sparedSave_before hW (fun _ n hn _ => hn) fun _ n hn => .inl (hn "")
    have hfree : FreeName (fun _ n => n = n₀) (Before id none c.1 M {n₀}) y := by
      intro c' w t hc' _ _ _
      rw [hc'.now]
    have hstart : Before id none c.1 M {n₀} c := by
      refine ⟨⟨fun n hn => .inr hn, fun n hn hw => ?_⟩, rfl, fun x hx => nomatch hx⟩
      rcases hn with hn | hn
      · exact hn
      · rw [← hid] at hn
        exact absurd hw (halone hcreates n hn)
    have hend := ((hspared.saveCleaned_inv sparedRow_before hfree true).ends hstart).1
    refine ⟨fun n hn m hm hnw hmw => ?_, fun n hn => ?_⟩
    · have hn' : n = n₀ := hend.waiting n (hend.made hn) hnw
      have hm' : m = n₀ := hend.waiting m (hend.made hm) hmw
      rw [hn', hm']
    · rcases hend.made hn with hn | hn
      · exact ⟨y, c.1.now, hid, hn⟩
      · exact h.named n hn
  · obtain ⟨v, w', hrun, hreg⟩ := run_saveCleaned_idle hcreates
    rw [Prog.after_of_run hrun, List.append_nil]
    exact h.within ((Before.refl none c).toWithin.same hreg)

/-- Scheduling another task. -/
theorem sparedSave_other (hW : Rescheduling.Workers env) (hx : x.id ≠ id) :
    SparedSave env (fun _ n => n ∈ M → n ∈ W) x.id (Before id r w₀ M W) :=
  sparedSave_before hW (fun _ _ h => h) fun heq => absurd heq hx

theorem saveOther_inv (hW : Rescheduling.Workers env) (hM : NamesOf id M) (hx : x.id ≠ id)
    (scheduleJob : Bool) :
    (x.saveCleaned env scheduleJob).Inv (Before id r w₀ M W) fun _ => True :=
  (sparedSave_other hW hx).saveCleaned_inv sparedRow_before (freeName_other hM hx) scheduleJob

/-- The invariant after a program that keeps `Before`. -/
theorem Single.of_inv {α : Type} (h : Single id c) {p : Py α} {Q : α → Prop}
    (hp : p.Inv (Before id r c.1 (scheduledFor id c.2) (waiting id c)) Q) : Single id (p.after c) :=
  h.within (hp.ends (Before.refl r c)).1.toWithin

/-! ## A pass -/

theorem roundOther_inv (hW : Rescheduling.Workers env) (hM : NamesOf id M) (hx : x.id ≠ id) :
    (Rescheduling.round env x).Inv (Before id r w₀ M W) fun _ => True :=
  (describe_inv x).bind fun _ _ => (saveOther_inv hW hM hx true).bind fun _ _ => Prog.Inv.ret trivial

theorem roundOwn_single (hW : Rescheduling.Workers env) (hid : y.id = id) (h : Single id c)
    (halone : Alone env y c) : Single id ((Rescheduling.round env y).after c) := by
  have hdescribe := (@describe_inv env (fun c' => c' = c) y).ends rfl
  unfold Rescheduling.round
  cases hv : ((y.describe env).run c.1).val with
  | error e =>
      rw [Prog.after_bind_error hv, hdescribe.1]
      exact h
  | ok u =>
      rw [Prog.after_bind hv, hdescribe.1, after_ignore]
      exact save_single hW hid h halone

/-- Other rounds before that of the task do not change what it finds. -/
theorem Before.alone {c₀ : Config World Event} (hid : x.id = id)
    (h : Before id (some x) c₀.1 (scheduledFor id c₀.2) (waiting id c₀) c) (halone : Alone env x c₀) :
    Alone env x c := by
  rintro ⟨hen, hidle, x', htime, hfuture⟩ n hn hw
  rw [h.now] at htime hfuture
  have hcreates : Creates env x c₀.1 :=
    ⟨hen, fun hp => hidle (h.pending x rfl hp), x', htime, hfuture⟩
  rw [hid] at hn
  obtain ⟨hn₀, hw₀⟩ := h.waiting n (h.made hn) hw
  rw [← hid] at hn₀
  exact halone hcreates n hn₀ hw₀

/-- The rounds of all tasks, of which the task itself has at most one. -/
theorem rounds_single (hW : Rescheduling.Workers env) {c₀ : Config World Event} (h₀ : Single id c₀)
    {l : List Task} (hnodup : (l.map Task.id).Nodup)
    (hr : ∀ x ∈ l, x.id = id → r = some x ∧ Alone env x c₀)
    (h : Before id r c₀.1 (scheduledFor id c₀.2) (waiting id c₀) c) :
    Single id ((Prog.forEach l (Rescheduling.round env)).after c) := by
  have hsingle : Single id c := h₀.within h.toWithin
  induction l generalizing c with
  | nil =>
      have hend : (Prog.forEach [] (Rescheduling.round env)).after c = c :=
        congrArg (Prod.mk c.1) (List.append_nil c.2)
      rw [hend]
      exact hsingle
  | cons x l ih =>
      rw [List.map_cons, List.nodup_cons] at hnodup
      show Single id ((Rescheduling.round env x >>= fun _ =>
        Prog.forEach l (Rescheduling.round env)).after c)
      by_cases hx : x.id = id
      · -- the round of the task, then those of others
        obtain ⟨rfl, halone⟩ := hr x List.mem_cons_self hx
        have hown := roundOwn_single hW hx hsingle (h.alone hx halone)
        have hrest : ∀ x' ∈ l, x'.id ≠ id := by
          intro x' hx' heq
          exact hnodup.1 (hx.trans heq.symm ▸ List.mem_map_of_mem hx')
        cases hv : ((Rescheduling.round env x).run c.1).val with
        | error e =>
            rw [Prog.after_bind_error hv]
            exact hown
        | ok u =>
            rw [Prog.after_bind hv]
            exact hown.of_inv (r := none)
              (Prog.Inv.forEach fun x' hx' => roundOther_inv hW hown.named (hrest x' hx'))
      · have hkept := ((roundOther_inv hW h₀.named hx).ends h).1
        cases hv : ((Rescheduling.round env x).run c.1).val with
        | error e =>
            rw [Prog.after_bind_error hv]
            exact h₀.within hkept.toWithin
        | ok u =>
            rw [Prog.after_bind hv]
            exact ih hnodup.2 (fun x' hx' => hr x' (List.mem_cons_of_mem x hx')) hkept
              (h₀.within hkept.toWithin)

/-- The jobs that are moved wait before, and are queued then. -/
theorem enqueueFrom_before (hW : Rescheduling.Workers env) (q : QueueName) :
    (WorkerScheduler.enqueueFrom env q).Inv (Before id r w₀ M W) fun _ => True := by
  have hspared : SparedSave env (fun _ n => n ∈ M → n ∈ W) (id + 1) (Before id r w₀ M W) :=
    sparedSave_before hW (fun _ _ h => h) fun heq => absurd heq (Nat.succ_ne_self id)
  exact hspared.enqueueFrom_inv fun w t m _ _ h hin hm => h.waiting m hm ⟨q, .inl hin⟩

theorem rescheduleTasks_single (hW : Rescheduling.Workers env) (h : Single id c)
    (halone : ∀ r, c.1.tasks.find? id = some r → Alone env r c) :
    Single id ((rescheduleTasks env).after c) := by
  let l := c.1.tasks.rows.filter Task.enabled
  have hread : ((Prog.read fun w : World => w.tasks.rows.filter Task.enabled : Py _).run c.1).val
      = .ok l := rfl
  have hsame : (Prog.read fun w : World => w.tasks.rows.filter Task.enabled : Py _).after c = c :=
    congrArg (Prod.mk c.1) (List.append_nil c.2)
  rw [Rescheduling.rescheduleTasks_eq, Prog.after_bind hread, hsame]
  have hnodup : (l.map Task.id).Nodup :=
    (List.filter_sublist.map Task.id).nodup c.1.tasks.nodup
  refine rounds_single hW h hnodup (fun x hx hid => ?_) (Before.refl (c.1.tasks.find? id) c)
  have hfind : c.1.tasks.find? id = some x := by
    rw [← hid]
    exact c.1.tasks.find?_of_mem (List.mem_filter.1 hx).1
  exact ⟨hfind, halone x hfind⟩

theorem pass_single (hW : Rescheduling.Workers env) (h : Single id c)
    (halone : ∀ r, c.1.tasks.find? id = some r → Alone env r c) (s : WorkerScheduler) :
    Single id ((s.enqueueScheduledJobs env).after c) := by
  have hrounds := rescheduleTasks_single hW h halone
  unfold WorkerScheduler.enqueueScheduledJobs
  cases hv : ((rescheduleTasks env).run c.1).val with
  | error e =>
      rw [Prog.after_bind_error hv]
      exact hrounds
  | ok u =>
      rw [Prog.after_bind hv]
      refine hrounds.of_inv (r := none) (Q := fun _ => True) ?_
      exact (Prog.Inv.forEach fun q _ => enqueueFrom_before hW q).bind fun _ _ => Prog.Inv.ret trivial

/-! ## The other acts -/

/-- Nothing happens when `clean` refuses the object. -/
theorem after_save (clean scheduleJob : Bool) (x : Task) (c : Config World Event) :
    (x.save env clean scheduleJob).after c = match checked env clean x c.1.now with
      | .error _ => c
      | .ok y => (y.saveCleaned env scheduleJob).after c := by
  cases clean with
  | false => rfl
  | true =>
      unfold checked
      rw [if_pos rfl]
      unfold Prog.after Prog.exec
      rw [Task.run_save_clean]
      cases x.clean env c.1.now with
      | error e => exact congrArg (Prod.mk c.1) (List.append_nil c.2)
      | ok y => rfl

theorem id_of_checked {clean : Bool} {now : Int} (h : checked env clean x now = .ok y) : y.id = x.id := by
  cases clean with
  | false =>
      cases h
      rfl
  | true =>
      have hclean : x.clean env now = .ok y := h
      rw [(cleaned_of_clean hclean).2]

theorem saveAct_single (hW : Rescheduling.Workers env) (h : Single id c) {clean scheduleJob : Bool}
    (hallowed : Allowed env id c (.save x clean scheduleJob)) :
    Single id ((x.save env clean scheduleJob).after c) := by
  rw [after_save]
  cases hy : checked env clean x c.1.now with
  | error e => exact h
  | ok y =>
      dsimp only
      have hid : y.id = x.id := id_of_checked hy
      by_cases hx : x.id = id
      · cases scheduleJob with
        | true => exact save_single hW (hid.trans hx) h (hallowed hx y hy)
        | false =>
            have hstored : (y.saveCleaned env false).Inv (Before id none c.1 (scheduledFor id c.2)
                (waiting id c)) fun _ => True :=
              (Prog.Inv.write fun w t h => h.same rfl rfl).bind fun _ _ => Prog.Inv.ret trivial
            exact h.of_inv hstored
      · have hother : y.id ≠ id := by
          rw [hid]
          exact hx
        exact h.of_inv (r := none) (saveOther_inv hW h.named hother scheduleJob)

/-- A job that is to run now has a name that none of `_schedule` has. -/
theorem enqueueToRun_single (hW : Rescheduling.Workers env) (h : Single id c)
    (hnew : x.id = id → x.nextName c.1 ∉ scheduledFor id c.2) :
    Single id ((x.enqueueToRun env).after c) := by
  let I := Before id none c.1 (scheduledFor id c.2) (waiting id c)
  have hspared : SparedSave env (fun _ n => n ∈ scheduledFor id c.2 → n ∈ waiting id c) (id + 1) I :=
    sparedSave_before hW (fun _ _ h => h) fun heq => absurd heq (Nat.succ_ne_self id)
  have hname : x.nextName c.1 ∉ scheduledFor id c.2 := by
    by_cases hx : x.id = id
    · exact hnew hx
    · intro hn
      obtain ⟨y, now, hy, heq⟩ := h.named _ hn
      exact hx ((id_of_nextJobId heq).trans hy)
  refine h.of_inv (r := none) (Q := fun _ => True) ?_
  have hargs : (x.readEnqueueArgs env).Inv I fun a => a.name = some (x.nextName c.1) := by
    have hnow : (utcnow : Py Int).Inv I fun now => now = c.1.now := Prog.Inv.read fun w t hw => hw.now
    refine hnow.bind fun now hnow => ?_
    subst hnow
    cases x.jobMeta with
    | error e => exact Prog.Inv.raise
    | ok m => exact Prog.Inv.ret rfl
  refine hargs.bind fun a ha => (getQueue_inv _).bind fun q hq => ?_
  have hq' : env.queues q.name = some q.isAsync := hq.1 ▸ hq.2
  have hcreate := hspared.createAndEnqueueJob_inv hq' ha (fun _ _ _ _ _ hn => absurd hn hname) .none
    x.atFront
  exact hcreate.bind fun _ _ => Prog.Inv.ret trivial

/-- A worker takes names out of queues. -/
theorem dequeue_single (h : Single id c) (queues : List Queue) (timeout : Option Int) (fuel : Nat) :
    Single id ((Queue.dequeueAny env queues timeout fuel).after c) := by
  have hpopped : ∀ (l : List (QueueName × JobName)) n,
      .taskScheduled id n ∉ l.map fun p => Event.popped p.1 p.2 := by
    intro l n hn
    obtain ⟨p, -, hp⟩ := List.mem_map.1 hn
    cases hp
  have hlog : (Queue.dequeueAny env queues timeout fuel).Inv
      (fun c' : Config World Event => scheduledFor id c'.2 ⊆ scheduledFor id c.2) fun _ => True := by
    refine Prog.Inv.of_steps (R := fun _ _ es => ∀ n, .taskScheduled id n ∉ es) ?_ ?_
    · refine dequeueAny_steps (fun _ _ => List.not_mem_nil) (fun _ _ _ _ => List.not_mem_nil) ?_
        (fun w qs => hpopped _) (fun w n => ⟨fun m => by simp, fun m => by simp⟩) env queues timeout fuel
      intro w q n hn
      obtain ⟨m, -, hm⟩ := List.mem_map.1 hn
      cases hm
    · intro w t w' es hes ht n hn
      exact (List.mem_append.1 hn).elim (fun hn => ht hn) fun hn => absurd hn (hes n)
  have hdrawn := (dequeueAny_drawn env queues timeout fuel c.1).1
  refine h.within ⟨(hlog.ends fun _ hn => hn).1, fun n hn hw => ⟨hn, ?_⟩⟩
  obtain ⟨q, hin | hin⟩ := hw
  · refine ⟨q, .inl ?_⟩
    rw [World.inRegistry_iff, ← hdrawn.registry q .scheduled (by decide)]
    exact hin
  · exact ⟨q, .inr (hdrawn.queued q n hin)⟩

/-- An execution works on the registries of running and ended jobs. -/
theorem Within.execStep {q : QueueName} {m : JobName} {t es : List Event} (hs : ExecStep q m w w' es)
    (h : Within id M W (w, t)) : Within id M W (w', t ++ es) := by
  refine h.of_frame (fun n _ hw _ => ?_) fun n hn => ?_
  · cases hs with
    | add k s hk =>
        rcases waits_zadd hw with ⟨-, hkind⟩ | hw
        · rcases hk with rfl | rfl | rfl <;> rcases hkind with hkind | hkind <;> cases hkind
        · exact hw
    | remove => exact waits_zrem hw
    | _ => exact hw
  · cases hs <;> simp at hn

theorem Within.expireStep {m : JobName} {t es : List Event} (hs : ExpireStep m w w' es)
    (h : Within id M W (w, t)) : Within id M W (w', t ++ es) := by
  refine h.of_frame (fun n _ hw _ => ?_) fun n hn => ?_
  · cases hs <;> exact hw
  · cases hs <;> simp at hn

/-- The invariant after the steps of an execution, in which no user code runs. -/
theorem within_of_exec {α : Type} {p : Py α} {q : QueueName} {m : JobName} {Q : α → Prop}
    (h : p.Steps (ExecOr q m fun _ _ _ => False) Q) : p.Inv (Within id M W) Q :=
  Prog.Inv.of_steps h fun _ _ _ _ hs h => h.execStep (hs.resolve_right fun hfalse => hfalse)

theorem start_single (h : Single id c) (q : Queue) (job : JobModel) (worker : WorkerName) :
    Single id ((Act.program env (.start q job worker)).after c) := by
  have hsteps : (job.prepareForExecution worker q.activeJobRegistry).Steps
      (ExecOr q.name job.name fun _ _ _ => False) (Named job.name) :=
    prepareForExecution_steps rfl worker
  have hinv : (Act.program env (.start q job worker)).Inv
      (Within id (scheduledFor id c.2) (waiting id c)) fun _ => True :=
    (within_of_exec (After.get_steps (Q := fun _ => True) hsteps fun _ _ _ => trivial)).bind
      fun _ _ => Prog.Inv.ret trivial
  exact h.within (hinv.ends (Before.refl none c).toWithin).1

theorem finish_single (h : Single id c) (q : Queue) (job : JobModel) (ending : Repeats.Ending) :
    Single id ((Act.program env (.finish q job ending)).after c) := by
  have hinv : (Act.program env (.finish q job ending)).Inv
      (Within id (scheduledFor id c.2) (waiting id c)) fun _ => True := by
    cases ending with
    | success result =>
        have hsteps : (q.jobHandleSuccess job result job.jobInfoTtl job.successTtl).Steps
            (ExecOr q.name job.name fun _ _ _ => False) (Named job.name) :=
          jobHandleSuccess_steps rfl result _ _
        refine (within_of_exec (After.get_steps (Q := fun _ => True) hsteps fun _ _ _ => trivial)).bind
          fun r _ => ?_
        have hexpire := Prog.Inv.of_steps (I := Within id (scheduledFor id c.2) (waiting id c))
          (expire_steps (j := r.1) rfl r.1.successTtl) fun _ _ _ _ hs h => h.expireStep hs
        exact hexpire.bind fun _ _ => Prog.Inv.ret trivial
    | failure excString =>
        have hsteps : (q.jobHandleFailure env .failed job excString).Steps
            (ExecOr q.name job.name fun _ _ _ => False) (Named job.name) :=
          jobHandleFailure_steps rfl .failed excString
        exact (within_of_exec (After.get_steps (Q := fun _ => True) hsteps fun _ _ _ => trivial)).bind
          fun _ _ => Prog.Inv.ret trivial
  exact h.within (hinv.ends (Before.refl none c).toWithin).1

/-- A callback saves the row of the job's task, if there is one. -/
theorem after_callback (job : JobModel) (ending : Repeats.Ending) (c : Config World Event) :
    (Repeats.callback env job ending).after c = c ∨
      ∃ r, (job.taskType.isSome = true ∧ job.scheduledTaskId = some r.id) ∧
        c.1.tasks.find? r.id = some r ∧ (Repeats.callback env job ending).after c
          = ((Repeats.ended r c.1.now ending).saveCleaned env true).after c := by
  have hnone : (Task.getTaskForJob job).run c.1 = ⟨.ok none, c.1, []⟩ →
      (Repeats.callback env job ending).after c = c := by
    intro hget
    have hrun : (Repeats.callback env job ending).run c.1 = ⟨.ok (), c.1, []⟩ := by
      cases ending with
      | success result =>
          unfold Repeats.callback Task.successCallback
          rw [Prog.run_bind, hget]
          rfl
      | failure excString =>
          unfold Repeats.callback Task.failureCallback
          rw [Prog.run_bind, hget]
          rfl
    rw [Prog.after_of_run hrun, List.append_nil]
  cases hty : job.taskType with
  | none =>
      refine .inl (hnone ?_)
      unfold Task.getTaskForJob
      rw [hty]
      rfl
  | some ty =>
      cases htask : job.scheduledTaskId with
      | none =>
          refine .inl (hnone ?_)
          unfold Task.getTaskForJob
          rw [hty, htask]
          rfl
      | some i =>
          cases hfind : c.1.tasks.find? i with
          | none =>
              refine .inl (hnone ?_)
              unfold Task.getTaskForJob
              rw [hty, htask]
              dsimp only
              rw [Prog.run_read, hfind]
          | some r =>
              have hfound : c.1.tasks.rows.find? (fun r => decide (r.id = i)) = some r := hfind
              have hid : r.id = i := by simpa using List.find?_some hfound
              subst hid
              have hof : job.taskType.isSome = true ∧ job.scheduledTaskId = some r.id :=
                ⟨by rw [hty]; rfl, htask⟩
              refine .inr ⟨r, ⟨rfl, rfl⟩, hfind, ?_⟩
              have hrun : (Repeats.callback env job ending).run c.1
                  = (((Repeats.ended r c.1.now ending).saveCleaned env true).run c.1).andThen fun _ =>
                    pure () := Repeats.run_callback hof hfind ending
              rw [← Prog.run_bind] at hrun
              refine Eq.trans ?_ (after_ignore _ c)
              unfold Prog.after Prog.exec
              rw [hrun]

theorem callback_single (hW : Rescheduling.Workers env) (h : Single id c) {job : JobModel}
    {ending : Repeats.Ending} (hallowed : Allowed env id c (.callback job ending)) :
    Single id ((Repeats.callback env job ending).after c) := by
  rcases after_callback job ending c with hsame | ⟨r, ⟨htype, htask⟩, hfind, hsaved⟩
  · rw [hsame]
    exact h
  · rw [hsaved]
    have hid : (Repeats.ended r c.1.now ending).id = r.id := by
      cases ending <;> rfl
    by_cases hr : r.id = id
    · rw [hr] at htask hfind
      exact save_single hW (hid.trans hr) h (hallowed htype htask r hfind)
    · have hother : (Repeats.ended r c.1.now ending).id ≠ id := by
        rw [hid]
        exact hr
      exact h.of_inv (r := none) (saveOther_inv hW h.named hother true)

/-- One act. -/
theorem step_single (hW : Rescheduling.Workers env) (h : Single id c) {a : Act}
    (ha : Allowed env id c a) : Single id (step env c a) := by
  cases a with
  | tick d =>
      have hinv : (Act.program env (.tick d)).Inv (Within id (scheduledFor id c.2) (waiting id c))
          fun _ => True := Prog.Inv.write fun w t h => h.same rfl
      exact h.within (hinv.ends (Before.refl none c).toWithin).1
  | save x clean scheduleJob =>
      show Single id ((x.save env clean scheduleJob >>= fun _ => (pure () : Py Unit)).after c)
      rw [after_ignore]
      exact saveAct_single hW h ha
  | enqueueToRun x => exact enqueueToRun_single hW h ha
  | pass s =>
      show Single id ((s.enqueueScheduledJobs env >>= fun _ => (pure () : Py Unit)).after c)
      rw [after_ignore]
      exact pass_single hW h ha s
  | dequeue queues timeout fuel =>
      show Single id ((Queue.dequeueAny env queues timeout fuel >>= fun _ => (pure () : Py Unit)).after c)
      rw [after_ignore]
      exact dequeue_single h queues timeout fuel
  | start q job worker => exact start_single h q job worker
  | callback job ending => exact callback_single hW h ha
  | finish q job ending => exact finish_single h q job ending
  | other p =>
      obtain ⟨hwaits, hlog⟩ := ha
      have hw : Within id (scheduledFor id c.2) (waiting id c) (p.exec c.1, c.2 ++ (p.run c.1).trace) :=
        (Before.refl none c).toWithin.of_frame (fun n hn hnw _ => hwaits n hn hnw)
          fun n hn => absurd hn (hlog n)
      exact h.within hw

/-- In every run whose saves of the task make no job while another one waits, at most one of the jobs that
`_schedule` created for the task waits, in every state. -/
theorem at_most_one (hW : Rescheduling.Workers env) (h : Single id c) {acts : List Act}
    (hacts : Run.Meets (step env) (Allowed env id) c acts) :
    Run.Along (step env) (AtMostOne id) c acts :=
  (Run.along_of_step (P := Single id) (fun _ _ h ha => step_single hW h ha) h hacts).mono
    fun _ h => h.one

end Own

/-! ## Samples -/

/-- A one-off task for the fifth second. -/
def sampleTask : Task := Sample.onceTask 5000000

theorem sample_single : Single 7 (World.init 0, []) :=
  ⟨fun _ hn => (List.not_mem_nil hn).elim, fun _ hn => (List.not_mem_nil hn).elim⟩

def sampleJob : JobModel := { Sample.job "q:7:19700101000000000000" with
  taskType := some .once, scheduledTaskId := some 7 }

/-- The task is scheduled, and its job moved, started and ended when it is due. -/
def sampleRun : List Act :=
  [.save sampleTask true true, .tick 10000000, .pass Isolation.sampleScheduler,
    .dequeue [Sample.queue] none 1, .start Sample.queue sampleJob "w",
    .callback sampleJob (.success .none)]

theorem sample_at_most_one :
    Run.Along (step Isolation.sampleEnv) (AtMostOne 7) (World.init 0, []) sampleRun := by
  refine at_most_one Isolation.sample_workers sample_single
    ⟨?_, trivial, ?_, trivial, trivial, ?_, trivial⟩
  · exact fun _ y hy _ n hn => (List.not_mem_nil hn).elim
  · -- the job is pending at the pass
    intro r hr hcreates
    have hrow : ∀ r ∈ (Run.last (step Isolation.sampleEnv) (World.init 0, [])
        [.save sampleTask true true, .tick 10000000]).1.tasks.find? 7,
        r = sampleTask.withJob "q:7:19700101000000000000" := by
      decide +kernel
    have hin : (Run.last (step Isolation.sampleEnv) (World.init 0, [])
        [.save sampleTask true true, .tick 10000000]).1.inRegistry "q" .scheduled
          "q:7:19700101000000000000" := by
      decide +kernel
    obtain rfl := hrow r hr
    exact absurd ⟨_, rfl, .inl hin⟩ hcreates.2.1
  · -- the time of the task is past at the callback
    intro _ _ r hr hcreates
    have hrow : ∀ r ∈ (Run.last (step Isolation.sampleEnv) (World.init 0, [])
        (sampleRun.take 5)).1.tasks.find? 7, r = sampleTask.withJob "q:7:19700101000000000000" := by
      decide +kernel
    have hnow : (Run.last (step Isolation.sampleEnv) (World.init 0, []) (sampleRun.take 5)).1.now
        = 10000000 := by
      decide +kernel
    obtain rfl := hrow r hr
    have hlate : (5000000 : Int) < (Run.last (step Isolation.sampleEnv) (World.init 0, [])
        (sampleRun.take 5)).1.now := by
      rw [hnow]
      decide
    exact absurd hcreates (not_creates_of_past rfl rfl hlate)

/-! ## A task that is also run now -/

/-- The job that runs the task now. -/
def nowJob : JobModel := { Sample.job "q:7:19700101000000000001" with
  taskType := some .once, scheduledTaskId := some 7 }

/-- The task is scheduled and then run at once, in a job of its own, which succeeds. -/
def sampleActs : List Act :=
  [.save sampleTask true true, .tick 1,
    .enqueueToRun (sampleTask.withJob "q:7:19700101000000000000"),
    .dequeue [Sample.queue] none 1, .start Sample.queue nowJob "w", .tick 1,
    .callback nowJob (.success .none)]

def sampleEnd : Config World Event :=
  Run.last (step Isolation.sampleEnv) (World.init 0, []) sampleActs

/-- The callback of the job that ran now has made a second job while the first still waits. -/
theorem two_jobs_wait : ¬ AtMostOne 7 sampleEnd := by
  intro h
  have hwait : ∀ n ∈ ["q:7:19700101000000000000", "q:7:19700101000000000002"],
      .taskScheduled 7 n ∈ sampleEnd.2 ∧ sampleEnd.1.inRegistry "q" .scheduled n := by
    decide +kernel
  obtain ⟨hfirst, hin⟩ := hwait "q:7:19700101000000000000" (by decide)
  obtain ⟨hsecond, hin'⟩ := hwait "q:7:19700101000000000002" (by decide)
  have hsame := h _ hfirst _ hsecond ⟨"q", .inl hin⟩ ⟨"q", .inl hin'⟩
  revert hsame
  decide

end DailyScheduler.NextJob
