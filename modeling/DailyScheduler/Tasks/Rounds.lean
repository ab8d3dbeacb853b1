import DailyScheduler.Lib.Rounds
import DailyScheduler.Model.Scheduler
import DailyScheduler.Tasks.Save

set_option autoImplicit false

/-! # The rounds of `_reschedule_tasks`

Each enabled task is printed and saved. Its round gives the task a job (`Due`), leaves it as it is
(`Quiet`) or raises (`Raises`), and which of these it is does not depend on the rounds of the other
tasks: a round writes the row of its task and adds one job, whose name has the task's id.
-/

namespace DailyScheduler.Rescheduling

open AtomicProg

/-- Every configured queue has workers. -/
def Workers (env : Env) : Prop := ∀ q, env.queues q ≠ some false

/-- The round of one task. -/
def round (env : Env) (t : Task) : Py Unit := do
  t.describe env
  let _ ← t.save env false true

theorem rescheduleTasks_eq (env : Env) : rescheduleTasks env
    = (Prog.read fun w : World => w.tasks.rows.filter Task.enabled) >>= fun l =>
      Prog.forEach l (round env) := rfl

/-! ## What the round of a task finds -/

/-- The next run of the task is that of `t'`. -/
structure Upcoming (env : Env) (now : Int) (t t' : Task) : Prop where
  time : t.scheduleTime env now = .ok t'
  future : t'.inThePast now = .ok false
  metadata : ∃ m, t'.jobMeta = .ok m
  when' : Task.whenOf env t'.scheduledTime ≠ .other

/-- The task is late and has no repeats left. -/
def Late (env : Env) (now : Int) (t : Task) : Prop :=
  ∃ t', t.scheduleTime env now = .ok t' ∧ t'.inThePast now = .ok true

/-- The task is due for scheduling: it has no pending job, there is a next run, and the job for it is
accepted. -/
structure Due (env : Env) (t : Task) (w : World) : Prop where
  printed : t.describeError env w = none
  idle : ¬ t.Pending w
  queue : ∃ isAsync, env.queues t.queue = some isAsync
  next : ∃ t', Upcoming env w.now t.forgotten t'
  free : t.JobFree env w

/-- The task has its job, or is late and gets none. -/
structure Quiet (env : Env) (t : Task) (w : World) : Prop where
  printed : t.describeError env w = none
  queue : t.jobName = none ∨ ∃ isAsync, env.queues t.queue = some isAsync
  state : t.Pending w ∨ Late env w.now t.forgotten

/-- Scheduling the task raises. -/
def Raises (env : Env) (t : Task) (w : World) : Prop := ¬ Due env t w ∧ ¬ Quiet env t w

/-! ## Names -/

/-- What follows the last `:` is the same. -/
theorem eq_of_append_colon {a a' d d' : List Char} (h : a ++ ':' :: d = a' ++ ':' :: d')
    (hd : ':' ∉ d) (hd' : ':' ∉ d') : d = d' := by
  have htake : ∀ a d : List Char, ':' ∉ d →
      (a ++ ':' :: d).reverse.takeWhile (· ≠ ':') = d.reverse := by
    intro a d hd
    rw [List.reverse_append, List.reverse_cons, List.append_assoc,
      List.takeWhile_append_of_pos fun c hc => ?_]
    · simp
    · have hne : c ≠ ':' := by
        rintro rfl
        exact hd (List.mem_reverse.1 hc)
      simpa using hne
  have hrev : d.reverse = d'.reverse := by
    rw [← htake a d hd, h, htake a' d' hd']
  exact List.reverse_injective hrev

theorem colon_notMem_toString (i : Nat) : ':' ∉ (toString i).toList := by
  intro h
  have hdigit : (':' : Char).isDigit = true := by
    refine Nat.isDigit_of_mem_toDigits (b := 10) (n := i) (by decide) (by decide) ?_
    simpa using h
  revert hdigit
  decide

/-- The names of the next jobs of two tasks differ: each has the id of its task. -/
theorem id_of_nextJobId {t x : Task} {now : Int} (h : t.nextJobId now = x.nextJobId now) :
    t.id = x.id := by
  unfold Task.nextJobId at h
  have hchars := congrArg String.toList h
  simp only [String.toList_append] at hchars
  have hfront := List.append_cancel_right (List.append_cancel_right hchars)
  have hsplit : ∀ y : Task, y.queue.toList ++ ":".toList ++ (toString y.id).toList
      = y.queue.toList ++ ':' :: (toString y.id).toList := by
    intro y
    rw [List.append_assoc]
    rfl
  rw [hsplit, hsplit] at hfront
  have hid := eq_of_append_colon hfront (colon_notMem_toString _) (colon_notMem_toString _)
  have hdigits : Nat.toDigits 10 t.id = Nat.toDigits 10 x.id := by
    simpa using hid
  rw [← Nat.ofDigitChars_ten_toDigits (n := t.id), hdigits, Nat.ofDigitChars_ten_toDigits]

/-! ## What a round changes -/

/-- The values that are stored of a job were encoded. -/
def Encoded (w : World) : Prop :=
  ∀ n (h : JobHash), w.jobs.find? n = some h → ∀ v : PyValue,
    h .args = some v ∨ h .kwargs = some v ∨ h .metadata = some v → v.encodes = true

/-- A round changes the row of its task, and the job of its name. -/
structure Touches (env : Env) (t : Task) (w w' : World) : Prop where
  now : w'.now = w.now
  taskArgs : w'.taskArgs = w.taskArgs
  taskKwargs : w'.taskKwargs = w.taskKwargs
  rows : ∀ i, i ≠ t.id → w'.tasks.find? i = w.tasks.find? i
  jobs : ∀ m, m ≠ t.nextName w → w'.jobs.find? m = w.jobs.find? m
  scores : ∀ m, m ≠ t.nextName w → ∀ q k, (w'.registry q k).score m = (w.registry q k).score m
  unconfigured : ∀ q, env.queues q = none → ∀ k, w'.registry q k = w.registry q k
  encoded : Encoded w → Encoded w'

/-- Nothing is stored under the name, or the name was free and has a complete record now. -/
def NameUsed (n : JobName) (w w' : World) : Prop :=
  (w'.jobs.find? n = w.jobs.find? n ∧ ∀ q k, (w'.registry q k).score n = (w.registry q k).score n) ∨
    (w.jobExists n = false ∧ w'.loadable n)

/-- Only rows of the task are written. -/
structure Stores (env : Env) (t : Task) (w w' : World) : Prop where
  touches : Touches env t w w'
  jobs : w'.jobs = w.jobs
  registry : w'.registry = w.registry

section Changes

variable {env : Env} {t : Task} {w w' w'' : World}

theorem Encoded.saveJob {j : JobModel} (h : Encoded w) (hj : j.serializable = true) (sa : Bool) :
    Encoded (w.saveJob j sa) := by
  obtain ⟨⟨hargs, hkwargs⟩, hmeta⟩ : (j.args.encodes = true ∧ j.kwargs.encodes = true) ∧
      j.metadata.encodes = true := by
    simpa [JobModel.serializable] using hj
  intro n h' hfind v hv
  by_cases hn : n = j.name
  · subst hn
    -- each field is the job's, or it is as it was
    have hold : ∀ h₀ : JobHash, (w.jobs.find? j.name).getD (fun _ => none) = h₀ →
        (h₀ .args = some v ∨ h₀ .kwargs = some v ∨ h₀ .metadata = some v) → v.encodes = true := by
      intro h₀ hh₀ hv₀
      cases hw : w.jobs.find? j.name with
      | none =>
          rw [hw] at hh₀
          subst hh₀
          rcases hv₀ with hv₀ | hv₀ | hv₀ <;> cases hv₀
      | some h₁ =>
          rw [hw] at hh₀
          subst hh₀
          exact h j.name h₁ hw v hv₀
    have hstored : h' = j.storedOver sa ((w.jobs.find? j.name).getD fun _ => none) := by
      unfold World.saveJob at hfind
      dsimp only at hfind
      split at hfind
      · rw [TtlMap.find?_put_self] at hfind
        exact (Option.some_inj.1 hfind).symm
      · rw [TtlMap.find?_erase, if_pos rfl] at hfind
        cases hfind
    rw [hstored] at hv
    unfold JobModel.storedOver Hash.merge at hv
    rcases hv with hv | hv | hv
    · split at hv
      · cases hv
        exact hargs
      · exact hold _ rfl (.inl hv)
    · split at hv
      · cases hv
        exact hkwargs
      · exact hold _ rfl (.inr (.inl hv))
    · split at hv
      · cases hv
        exact PyValue.encodes_readBack hmeta
      · exact hold _ rfl (.inr (.inr hv))
  · rw [World.find?_saveJob_of_ne w j sa hn] at hfind
    exact h n h' hfind v hv

/-- A loaded job can be saved again. -/
theorem Encoded.serializable {n : JobName} {j : JobModel} (h : Encoded w)
    (hj : JobModel.fetch env w n = some j) : j.serializable = true := by
  obtain ⟨v, hv, hload⟩ := JobModel.loadedFrom_of_fetch hj
  have hargs := h n v hv j.args (.inl hload.args)
  have hkwargs := h n v hv j.kwargs (.inr (.inl hload.kwargs))
  have hmeta := h n v hv j.metadata (.inr (.inr hload.metadata))
  unfold JobModel.serializable
  rw [hargs, hkwargs, hmeta]
  rfl

theorem Touches.refl (env : Env) (t : Task) (w : World) : Touches env t w w :=
  ⟨rfl, rfl, rfl, fun _ _ => rfl, fun _ _ => rfl, fun _ _ _ _ => rfl, fun _ _ _ => rfl, fun h => h⟩

theorem Touches.nextName (h : Touches env t w w') : t.nextName w' = t.nextName w := by
  unfold Task.nextName
  rw [h.now]

theorem Touches.trans (h : Touches env t w w') (h' : Touches env t w' w'') :
    Touches env t w w'' where
  now := h'.now.trans h.now
  taskArgs := h'.taskArgs.trans h.taskArgs
  taskKwargs := h'.taskKwargs.trans h.taskKwargs
  rows := fun i hi => (h'.rows i hi).trans (h.rows i hi)
  jobs := fun m hm => by
    rw [h'.jobs m (by rw [h.nextName]; exact hm), h.jobs m hm]
  scores := fun m hm q k => by
    rw [h'.scores m (by rw [h.nextName]; exact hm) q k, h.scores m hm q k]
  unconfigured := fun q hq k => (h'.unconfigured q hq k).trans (h.unconfigured q hq k)
  encoded := fun he => h'.encoded (h.encoded he)

theorem Touches.inRegistry_iff (h : Touches env t w w') {m : JobName} (hm : m ≠ t.nextName w)
    (q : QueueName) (k : RegistryKind) : w'.inRegistry q k m ↔ w.inRegistry q k m := by
  rw [World.inRegistry_iff, World.inRegistry_iff, h.scores m hm q k]

theorem NameUsed.refl (n : JobName) (w : World) : NameUsed n w w := .inl ⟨rfl, fun _ _ => rfl⟩

theorem Stores.refl (env : Env) (t : Task) (w : World) : Stores env t w w :=
  ⟨Touches.refl env t w, rfl, rfl⟩

theorem Stores.nameUsed (h : Stores env t w w') {n : JobName} (h' : NameUsed n w' w'') :
    NameUsed n w w'' := by
  unfold NameUsed World.jobExists at *
  rw [h.jobs] at h'
  have hreg : ∀ q k, w'.registry q k = w.registry q k := fun q k => by rw [h.registry]
  simp only [hreg] at h'
  exact h'

theorem NameUsed.stores {n : JobName} (h : NameUsed n w w') (h' : Stores env t w' w'') :
    NameUsed n w w'' := by
  unfold NameUsed World.loadable at *
  rw [h'.jobs]
  have hreg : ∀ q k, w''.registry q k = w'.registry q k := fun q k => by rw [h'.registry]
  simp only [hreg]
  exact h

theorem stores_putTask {x : Task} (hx : x.id = t.id) (w : World) :
    Stores env t w (w.putTask x) where
  touches := {
    now := rfl
    taskArgs := rfl
    taskKwargs := rfl
    rows := fun i hi => by
      show (w.tasks.put x).find? i = _
      rw [TaskTable.find?_put, if_neg]
      rw [hx]
      exact hi
    jobs := fun _ _ => rfl
    scores := fun _ _ _ _ => rfl
    unconfigured := fun _ _ _ => rfl
    encoded := fun h => h }
  jobs := rfl
  registry := rfl

theorem touches_saveJob {j : JobModel} (hj : j.name = t.nextName w) (hs : j.serializable = true)
    (sa : Bool) : Touches env t w (w.saveJob j sa) where
  now := rfl
  taskArgs := rfl
  taskKwargs := rfl
  rows := fun _ _ => rfl
  jobs := fun m hm => World.find?_saveJob_of_ne w j sa (by rw [hj]; exact hm)
  scores := fun _ _ _ _ => rfl
  unconfigured := fun _ _ _ => rfl
  encoded := fun h => h.saveJob hs sa

theorem touches_setRegistry {q : QueueName} {k : RegistryKind} {z : SortedSet Int JobName}
    (hq : env.queues q ≠ none)
    (hz : ∀ m, m ≠ t.nextName w → z.score m = (w.registry q k).score m) :
    Touches env t w (w.setRegistry q k z) where
  now := rfl
  taskArgs := rfl
  taskKwargs := rfl
  rows := fun _ _ => rfl
  jobs := fun _ _ => rfl
  scores := fun m hm q' k' => by
    rw [World.registry_setRegistry]
    split
    · rename_i h
      obtain ⟨rfl, rfl⟩ := h
      exact hz m hm
    · rfl
  unconfigured := fun q' hq' k' => by
    rw [World.registry_setRegistry, if_neg]
    rintro ⟨rfl, -⟩
    exact hq hq'
  encoded := fun h => h

theorem touches_zadd {n : JobName} (hn : n = t.nextName w) {q : QueueName}
    (hq : env.queues q ≠ none) (k : RegistryKind) (s : Int) :
    Touches env t w (w.zadd q k n s) :=
  touches_setRegistry hq fun m hm => by
    rw [SortedSet.score_add, if_neg]
    rw [hn]
    exact hm

theorem touches_zrem {n : JobName} (hn : n = t.nextName w) {q : QueueName}
    (hq : env.queues q ≠ none) (k : RegistryKind) : Touches env t w (w.zrem q k n) :=
  touches_setRegistry hq fun m hm => by
    rw [SortedSet.score_remove, if_neg]
    rw [hn]
    exact hm

end Changes

/-! ## Creating the job -/

/-- The job of the task is accepted. -/
structure Creatable (env : Env) (x : Task) (w : World) : Prop where
  queue : ∃ isAsync, env.queues x.queue = some isAsync
  metadata : ∃ m, x.jobMeta = .ok m
  when' : Task.whenOf env x.scheduledTime ≠ .other
  free : x.JobFree env w

/-- A run that ends with a job for the task. -/
structure Made (x : Task) (n : JobName) (o : Prog.Outcome World Event PyError Task) : Prop where
  val : o.val = .ok (x.withJob n)
  event : .taskScheduled x.id n ∈ o.trace
  pending : o.state.inRegistry x.queue .scheduled n ∨ o.state.inRegistry x.queue .queued n

/-- A run that raises and schedules no task. -/
structure Refused {α : Type} (o : Prog.Outcome World Event PyError α) : Prop where
  val : ∃ e, o.val = .error e
  events : ∀ i n, .taskScheduled i n ∉ o.trace

/-- What a run does that creates the job of a task, or raises. -/
structure Created (env : Env) (x : Task) (w : World) (o : Prog.Outcome World Event PyError Task) :
    Prop where
  touches : Touches env x w o.state
  name : NameUsed (x.nextName w) w o.state
  own : ∀ i n, .taskScheduled i n ∈ o.trace → i = x.id
  made : Creatable env x w → Made x (x.nextName w) o
  refused : ¬ Creatable env x w → Refused o

section Creating

variable {env : Env} {x : Task} {w : World}

theorem Created.of_error {e : PyError} (h : ¬ Creatable env x w) {o}
    (ho : o = (⟨.error e, w, []⟩ : Prog.Outcome World Event PyError Task)) :
    Created env x w o := by
  subst ho
  exact ⟨Touches.refl env x w, NameUsed.refl _ w, fun _ _ h => (List.not_mem_nil h).elim,
    fun hc => absurd hc h, fun _ => ⟨⟨e, rfl⟩, fun _ _ => List.not_mem_nil⟩⟩

theorem Created.of_raise {e : PyError} {w' : World} {es : List Event} (h : ¬ Creatable env x w)
    (ht : Touches env x w w') (hname : NameUsed (x.nextName w) w w')
    (hes : ∀ i n, .taskScheduled i n ∉ es) : Created env x w ⟨.error e, w', es⟩ :=
  ⟨ht, hname, fun i n h => absurd h (hes i n), fun hc => absurd hc h, fun _ => ⟨⟨e, rfl⟩, hes⟩⟩

theorem touches_scheduledWorld {job : JobModel} (hname : job.name = x.nextName w)
    (hser : job.serializable = true) {q : Queue} (hq : env.queues q.name ≠ none) (s : Int) :
    Touches env x w (q.scheduledWorld job s w) := by
  have hsave : Touches env x w (w.saveJob job false) := touches_saveJob hname hser false
  have hname' : job.name = x.nextName (w.saveJob job false) := hname
  exact hsave.trans (touches_zadd hname' hq .scheduled s)

theorem touches_enqueuedWorld {job : JobModel} (hname : job.name = x.nextName w)
    (hser : job.serializable = true) {q : Queue} (hq : env.queues q.name ≠ none) (atFront : Bool) :
    Touches env x w (q.enqueuedWorld job atFront w) := by
  let w₁ := w.saveJob (Queue.enqueuedModel job w.now) false
  have hmodel : (Queue.enqueuedModel job w.now).serializable = true := hser
  have hmname : (Queue.enqueuedModel job w.now).name = x.nextName w := hname
  have hsave : Touches env x w w₁ := touches_saveJob hmname hmodel false
  have hname₁ : job.name = x.nextName w₁ := hname
  have hremove : Touches env x w₁ (w₁.zrem q.name .scheduled job.name) :=
    touches_zrem hname₁ hq .scheduled
  have hname₂ : job.name = x.nextName (w₁.zrem q.name .scheduled job.name) := hname
  exact hsave.trans (hremove.trans (touches_zadd hname₂ hq .queued (q.scoreFor atFront w₁)))

/-- The last part of `create_and_enqueue_job`, and of `_schedule`. -/
def scheduled (x : Task) (n : JobName) (r : Prog.Outcome World Event PyError JobModel) :
    Prog.Outcome World Event PyError Task :=
  (⟨r.val, r.state, .created n :: r.trace⟩ : Prog.Outcome World Event PyError JobModel).andThen
    fun job => do
      Prog.emit (.taskScheduled x.id job.name)
      pure (x.withJob job.name)

/-- The job was placed. -/
theorem Created.of_placed {n : JobName} {job : JobModel} {w' : World} {es : List Event}
    (hn : n = x.nextName w) (hname : job.name = n) (ht : Touches env x w w')
    (hused : NameUsed n w w') (hes : ∀ i m, .taskScheduled i m ∉ es) (hc : Creatable env x w)
    (hin : w'.inRegistry x.queue .scheduled n ∨ w'.inRegistry x.queue .queued n) :
    Created env x w (scheduled x n ⟨.ok job, w', es⟩) := by
  subst hname
  have heq : scheduled x job.name ⟨.ok job, w', es⟩ = ⟨.ok (x.withJob job.name), w',
      .created job.name :: es ++ [.taskScheduled x.id job.name]⟩ := rfl
  rw [heq]
  refine ⟨ht, by rw [← hn]; exact hused, fun i m h => ?_,
    fun _ => ⟨by rw [hn], ?_, by rw [← hn]; exact hin⟩, fun h => absurd hc h⟩
  · rcases List.mem_append.1 h with h | h
    · rcases List.mem_cons.1 h with h | h
      · cases h
      · exact absurd h (hes i m)
    · cases List.mem_singleton.1 h
      rfl
  · rw [← hn]
    exact List.mem_append_right _ (List.mem_singleton.2 rfl)

/-- On a queue with workers every time and no time will do. -/
theorem created_placeJob {n : JobName} {job : JobModel} (hn : n = x.nextName w)
    (hname : job.name = n) (hser : job.serializable = true) (hall : job.saveAll = true)
    (hfree : w.jobExists n = false) (hq : env.queues x.queue ≠ none)
    (hc : Creatable env x w ↔ Task.whenOf env x.scheduledTime ≠ .other) :
    Created env x w (scheduled x n (((Queue.mk x.queue true).placeJob env job.saved
      (Task.whenOf env x.scheduledTime) x.atFront).run (w.saveJob job false))) := by
  have hnext : job.name = x.nextName w := hname.trans hn
  have hsave : Touches env x w (w.saveJob job false) := touches_saveJob hnext hser false
  have hload : (w.saveJob job false).loadable n :=
    World.loadable_saveJob (.inr ⟨hname.symm, .inr hall⟩)
  have hsaved : job.saved.name = x.nextName (w.saveJob job false) := hnext
  have hser' : job.saved.serializable = true := hser
  cases hwhen : Task.whenOf env x.scheduledTime with
  | other =>
      have hused : NameUsed (x.nextName w) w (w.saveJob job false) := by
        rw [← hn]
        exact .inr ⟨hfree, hload⟩
      refine Created.of_raise (fun h => hc.1 h hwhen) hsave hused fun i m h => ?_
      cases List.mem_singleton.1 h
  | datetime s =>
      have hok : Creatable env x w := hc.2 (by rw [hwhen]; intro h; cases h)
      have ht := hsave.trans
        (touches_scheduledWorld hsaved hser' (q := ⟨x.queue, true⟩) hq (s.timestamp env))
      have hused : NameUsed n w ((Queue.mk x.queue true).scheduledWorld job.saved (s.timestamp env)
          (w.saveJob job false)) :=
        .inr ⟨hfree, World.loadable_saveJob (w := w.saveJob job false) (j := job.saved) (.inl hload)⟩
      rw [Queue.run_placeJob_datetime env _ hser']
      refine Created.of_placed hn hname ht hused (fun _ _ => List.not_mem_nil) hok (.inl ?_)
      unfold Queue.scheduledWorld
      rw [World.inRegistry_zadd]
      exact .inl ⟨rfl, rfl, hname.symm⟩
  | none =>
      have hok : Creatable env x w := hc.2 (by rw [hwhen]; intro h; cases h)
      have hplace : (Queue.mk x.queue true).placeJob env job.saved .none x.atFront
          = (Queue.mk x.queue true).enqueueJob env job.saved x.atFront := rfl
      have hasync : (Queue.mk x.queue true).isAsync = true := rfl
      have hrun := Queue.run_enqueueJob env hasync hser' x.atFront (w.saveJob job false)
      have hname' : (Queue.enqueuedModel job.saved (w.saveJob job false).now).saved.name = n := by
        simpa using hname
      have ht := hsave.trans (touches_enqueuedWorld hsaved hser' (q := ⟨x.queue, true⟩) hq x.atFront)
      have hloaded : ((w.saveJob job false).saveJob (Queue.enqueuedModel job.saved
          (w.saveJob job false).now) false).loadable n := World.loadable_saveJob (.inl hload)
      have hused : NameUsed n w ((Queue.mk x.queue true).enqueuedWorld job.saved x.atFront
          (w.saveJob job false)) := .inr ⟨hfree, hloaded⟩
      rw [hplace, hrun]
      refine Created.of_placed hn hname' ht hused (fun i m h => ?_) hok (.inr ?_)
      · cases List.mem_singleton.1 h
      · unfold Queue.enqueuedWorld
        rw [World.inRegistry_zadd]
        exact .inl ⟨rfl, rfl, hname.symm⟩

/-- The job goes into the queue, or into the scheduled registry, or is not accepted. -/
theorem created_createJob (hW : Workers env) (x : Task) (w : World) :
    Created env x w ((x.createJob env).run w) := by
  cases hm : x.jobMeta with
  | error e =>
      refine Created.of_error (e := e) (fun hc => ?_) ?_
      · obtain ⟨m, hm'⟩ := hc.metadata
        rw [hm] at hm'
        cases hm'
      · unfold Task.createJob Task.readEnqueueArgs
        rw [Prog.run_bind, Prog.run_bind, run_utcnow, Prog.Outcome.andThen_ok, hm]
        rfl
  | ok m =>
      cases hq : env.queues x.queue with
      | none =>
          refine Created.of_error (e := .queueNotFoundError x.queue) (fun hc => ?_) ?_
          · obtain ⟨isAsync, hq'⟩ := hc.queue
            rw [hq] at hq'
            cases hq'
          · have hqueue : x.rqueue env = throw (.queueNotFoundError x.queue) := by
              unfold Task.rqueue getQueue
              rw [hq]
            unfold Task.createJob Task.readEnqueueArgs
            rw [Prog.run_bind, Prog.run_bind, run_utcnow, Prog.Outcome.andThen_ok, hm, hqueue]
            rfl
      | some isAsync =>
          have hasync : isAsync = true := by
            cases isAsync with
            | true => rfl
            | false => exact absurd hq (hW x.queue)
          subst hasync
          let a := x.enqueueArgs env (x.nextName w) m
          have hfree : JobModel.createError env a w = none ↔ x.JobFree env w :=
            Task.createError_enqueueArgs hm w
          rw [Task.run_createJob_when hq hm, Queue.run_createAndEnqueueJob]
          cases hc : JobModel.createError env a w with
          | some e =>
              refine Created.of_error (e := e) (fun h => ?_) rfl
              rw [hfree.2 h.free] at hc
              cases hc
          | none =>
              have hser := JobModel.serializable_of_createError hc x.queue
                (Queue.statusFor (Task.whenOf env x.scheduledTime)) w.now
              have hwhen : Creatable env x w ↔ Task.whenOf env x.scheduledTime ≠ .other :=
                ⟨fun h => h.when', fun h => ⟨⟨true, hq⟩, ⟨m, hm⟩, h, hfree.1 hc⟩⟩
              have hconf : env.queues x.queue ≠ none := by
                rw [hq]
                exact Option.some_ne_none true
              exact created_placeJob (n := x.nextName w) rfl rfl hser rfl (hfree.1 hc).2 hconf hwhen

end Creating

/-! ## The stages of a round -/

/-- What a part of the round of `t` does, which gives the task a job in the cases `due`, leaves it as it
is in the cases `quiet` and raises otherwise. -/
structure Stage (env : Env) (t : Task) (w : World) (due quiet : Prop)
    (o : Prog.Outcome World Event PyError Task) : Prop where
  touches : Touches env t w o.state
  name : NameUsed (t.nextName w) w o.state
  own : ∀ i n, .taskScheduled i n ∈ o.trace → i = t.id
  made : due → ∃ y, o.val = .ok y ∧ y.id = t.id ∧ y.queue = t.queue ∧
    y.jobName = some (t.nextName w) ∧ .taskScheduled t.id (t.nextName w) ∈ o.trace ∧
    (o.state.inRegistry t.queue .scheduled (t.nextName w) ∨
      o.state.inRegistry t.queue .queued (t.nextName w))
  kept : quiet → ∃ y, o.val = .ok y ∧ y.id = t.id
  refused : ¬ due → ¬ quiet → Refused o

section Stages

variable {env : Env} {t : Task} {w w' : World} {due quiet due' quiet' : Prop}

theorem Stage.congr {o} (h : Stage env t w due quiet o) (hd : due' ↔ due) (hq : quiet' ↔ quiet) :
    Stage env t w due' quiet' o :=
  ⟨h.touches, h.name, h.own, fun hdue => h.made (hd.1 hdue), fun hquiet => h.kept (hq.1 hquiet),
    fun hdue hquiet => h.refused (fun h' => hdue (hd.2 h')) fun h' => hquiet (hq.2 h')⟩

theorem Stage.of_error {e : PyError} (hd : ¬ due) (hq : ¬ quiet) :
    Stage env t w due quiet ⟨.error e, w, []⟩ :=
  ⟨Touches.refl env t w, NameUsed.refl _ w, fun _ _ h => (List.not_mem_nil h).elim,
    fun h => absurd h hd, fun h => absurd h hq, fun _ _ => ⟨⟨e, rfl⟩, fun _ _ => List.not_mem_nil⟩⟩

theorem Stage.of_quiet {y : Task} (hy : y.id = t.id) (hd : ¬ due) (hq : quiet) :
    Stage env t w due quiet ⟨.ok y, w, []⟩ :=
  ⟨Touches.refl env t w, NameUsed.refl _ w, fun _ _ h => (List.not_mem_nil h).elim,
    fun h => absurd h hd, fun _ => ⟨y, rfl, hy⟩, fun _ h => absurd hq h⟩

/-- A stage after the row was stored. -/
theorem Stage.after {o} (hs : Stores env t w w') (h : Stage env t w' due quiet o) :
    Stage env t w due quiet o := by
  have hname := hs.touches.nextName
  obtain ⟨htouches, hused, hown, hdue, hquiet, hraises⟩ := h
  rw [hname] at hdue hused
  exact ⟨hs.touches.trans htouches, hs.nameUsed hused, hown, hdue, hquiet, hraises⟩

/-- What `_schedule_time` returns has the id, the queue and the next name of the task. -/
theorem same_of_scheduleTime {x x' : Task} {now : Int} (h : x.scheduleTime env now = .ok x') :
    x'.id = x.id ∧ x'.queue = x.queue ∧ (∀ w, x'.nextName w = x.nextName w) ∧
      (∀ w, x'.JobFree env w ↔ x.JobFree env w) := by
  have hframe := Task.scheduleTime_frame h
  refine ⟨?_, ?_, fun w => ?_, fun w => ?_⟩
  · rw [hframe]
  · rw [hframe]
  · rw [hframe]
    rfl
  · rw [hframe]
    exact Iff.rfl

theorem Touches.of_same {x : Task} (hid : x.id = t.id) (hname : x.nextName w = t.nextName w)
    (h : Touches env x w w') : Touches env t w w' := by
  obtain ⟨hnow, hargs, hkwargs, hrows, hjobs, hscores, hqueues, henc⟩ := h
  rw [hid] at hrows
  rw [hname] at hjobs hscores
  exact ⟨hnow, hargs, hkwargs, hrows, hjobs, hscores, hqueues, henc⟩

/-- `_schedule` from the next time on. -/
theorem stage_scheduleNext (hW : Workers env) {x : Task} (hen : x.enabled = true)
    (hprint : x.describeError env w = none) :
    Stage env x w ((∃ x', Upcoming env w.now x x') ∧ (∃ isAsync, env.queues x.queue = some isAsync) ∧
      x.JobFree env w) (Late env w.now x) ((x.scheduleNext env).run w) := by
  cases htime : x.scheduleTime env w.now with
  | error e =>
      rw [Task.run_scheduleNext_error hen htime]
      refine Stage.of_error ?_ ?_
      · rintro ⟨⟨x', hnext⟩, -⟩
        have hok := hnext.time
        rw [htime] at hok
        cases hok
      · rintro ⟨x', hok, -⟩
        rw [htime] at hok
        cases hok
  | ok x' =>
      obtain ⟨hid, hqueue, hname, hfree⟩ := same_of_scheduleTime htime
      have hsame : ∀ y, x.scheduleTime env w.now = .ok y → y = x' := by
        intro y hy
        rw [htime] at hy
        exact (Except.ok.inj hy).symm
      rw [Task.run_scheduleNext hen htime]
      cases hpast : x'.inThePast w.now with
      | error e =>
          refine Stage.of_error ?_ ?_
          · rintro ⟨⟨y, hnext⟩, -⟩
            have hok := hnext.future
            rw [hsame y hnext.time, hpast] at hok
            cases hok
          · rintro ⟨y, hy, hok⟩
            rw [hsame y hy, hpast] at hok
            cases hok
      | ok late =>
          cases late with
          | true =>
              have hprint' : x'.describeError env w = none := by
                unfold Task.describeError at hprint ⊢
                rw [hid]
                exact hprint
              dsimp only
              rw [hprint']
              refine Stage.of_quiet hid ?_ ⟨x', htime, hpast⟩
              rintro ⟨⟨y, hnext⟩, -⟩
              have hok := hnext.future
              rw [hsame y hnext.time, hpast] at hok
              cases hok
          | false =>
              have hcreated := created_createJob hW x' w
              have hquiet : ¬ Late env w.now x := by
                rintro ⟨y, hy, hok⟩
                rw [hsame y hy, hpast] at hok
                cases hok
              have hdue : ((∃ x', Upcoming env w.now x x') ∧
                  (∃ isAsync, env.queues x.queue = some isAsync) ∧ x.JobFree env w) ↔
                  Creatable env x' w := by
                constructor
                · rintro ⟨⟨y, hnext⟩, hq, hf⟩
                  have hy := hsame y hnext.time
                  subst hy
                  exact ⟨by rw [hqueue]; exact hq, hnext.metadata, hnext.when', (hfree w).2 hf⟩
                · rintro ⟨hq, hm, hwhen, hf⟩
                  exact ⟨⟨x', htime, hpast, hm, hwhen⟩, by rw [← hqueue]; exact hq, (hfree w).1 hf⟩
              have hused := hcreated.name
              rw [hname w] at hused
              refine ⟨Touches.of_same hid (hname w) hcreated.touches, hused, fun i n h => ?_,
                fun h => ?_, fun h => absurd h hquiet,
                fun h _ => hcreated.refused fun hc => h (hdue.2 hc)⟩
              · rw [← hid]
                exact hcreated.own i n h
              · obtain ⟨hval, hevent, hpending⟩ := hcreated.made (hdue.1 h)
                rw [hname w] at hval hevent hpending
                rw [hqueue] at hpending
                rw [hid] at hevent
                exact ⟨_, hval, hid, hqueue, rfl, hevent, hpending⟩

/-- `_schedule`, of a task that can be printed. -/
theorem stage_schedule (hW : Workers env) (hen : t.enabled = true)
    (hprint : t.describeError env w = none) :
    Stage env t w (Due env t w) (Quiet env t w) ((t.schedule env).run w) := by
  have hnext : ∀ w', Stores env t w w' → Stage env t w ((∃ x', Upcoming env w'.now t.forgotten x') ∧
      (∃ isAsync, env.queues t.queue = some isAsync) ∧ t.JobFree env w')
      (Late env w'.now t.forgotten) ((t.forgotten.scheduleNext env).run w') := by
    intro w' hs
    have hprint' : t.forgotten.describeError env w' = none := by
      unfold Task.describeError at hprint ⊢
      rw [hs.touches.taskArgs, hs.touches.taskKwargs]
      exact hprint
    have hstage := stage_scheduleNext hW (x := t.forgotten) (w := w') hen hprint'
    have htouches := Touches.of_same (t := t) (x := t.forgotten) rfl rfl hstage.touches
    exact Stage.after hs ⟨htouches, hstage.name, hstage.own, hstage.made, hstage.kept, hstage.refused⟩
  cases hjob : t.jobName with
  | none =>
      have hidle : ¬ t.Pending w := by
        rintro ⟨n, hn, -⟩
        rw [hjob] at hn
        cases hn
      have hforgotten : t.forgotten = t := by
        unfold Task.forgotten
        rw [← hjob]
      have hrun : (t.schedule env).run w = (t.forgotten.scheduleNext env).run w := by
        rw [Task.run_schedule_of_none hjob, hforgotten]
      rw [hrun]
      refine (hnext w (Stores.refl env t w)).congr ?_ ?_
      · exact ⟨fun h => ⟨h.next, h.queue, h.free⟩, fun h => ⟨hprint, hidle, h.2.1, h.1, h.2.2⟩⟩
      · exact ⟨fun h => h.state.resolve_left hidle, fun h => ⟨hprint, .inl hjob, .inr h⟩⟩
  | some n =>
      cases hq : env.queues t.queue with
      | none =>
          have hrun : (t.schedule env).run w = ⟨.error (.queueNotFoundError t.queue), w, []⟩ := by
            have hqueue : t.rqueue env = throw (.queueNotFoundError t.queue) := by
              unfold Task.rqueue getQueue
              rw [hq]
            unfold Task.schedule Task.isScheduled
            rw [hjob, hqueue]
            rfl
          rw [hrun]
          refine Stage.of_error (fun h => ?_) fun h => ?_
          · obtain ⟨isAsync, hq'⟩ := h.queue
            rw [hq] at hq'
            cases hq'
          · rcases h.queue with hnone | ⟨isAsync, hq'⟩
            · rw [hjob] at hnone
              cases hnone
            · rw [hq] at hq'
              cases hq'
      | some isAsync =>
          by_cases hpending : t.Pending w
          · rw [Task.run_schedule_of_pending hpending hq]
            exact Stage.of_quiet rfl (fun h => h.idle hpending) ⟨hprint, .inr ⟨isAsync, hq⟩,
              .inl hpending⟩
          · rw [Task.run_schedule_of_lost hjob hpending hq]
            have hs : Stores env t w (w.putTask t.forgotten) :=
              stores_putTask (t := t) (x := t.forgotten) rfl w
            refine (hnext (w.putTask t.forgotten) hs).congr ?_ ?_
            · exact ⟨fun h => ⟨h.next, h.queue, h.free⟩,
                fun h => ⟨hprint, hpending, h.2.1, h.1, h.2.2⟩⟩
            · exact ⟨fun h => h.state.resolve_left hpending,
                fun h => ⟨hprint, .inr ⟨isAsync, hq⟩, .inr h⟩⟩

end Stages

/-! ## A round -/

/-- The task has the job `n`, which waits, and the events tell of it. -/
def HasJob (t : Task) (n : JobName) (w : World) (es : List Event) : Prop :=
  (∃ r, w.tasks.find? t.id = some r ∧ r.jobName = some n ∧ r.Pending w) ∧
    .taskScheduled t.id n ∈ es

/-- What the round of a task does. -/
structure RoundOf (env : Env) (t : Task) (w : World) (o : Prog.Outcome World Event PyError Unit) :
    Prop where
  touches : Touches env t w o.state
  name : NameUsed (t.nextName w) w o.state
  own : ∀ i n, .taskScheduled i n ∈ o.trace → i = t.id
  due : Due env t w → o.val = .ok () ∧ HasJob t (t.nextName w) o.state o.trace
  quiet : Quiet env t w → o.val = .ok ()
  raises : Raises env t w → Refused o

theorem run_round {env : Env} {t : Task} {w : World} (hprint : t.describeError env w = none) :
    (round env t).run w = (((t.schedule env).run (w.putTask t)).andThen (fun y => do
      y.store
      pure ())) := by
  unfold round
  rw [Prog.run_bind, Task.run_describe, hprint, Prog.Outcome.andThen_ok]
  have hsave : t.save env false true = t.saveCleaned env true := rfl
  rw [hsave, Prog.run_bind, Task.run_saveCleaned]
  rcases (t.schedule env).run (w.putTask t) with ⟨e | y, w', es⟩
  · rfl
  · simp [Prog.Outcome.andThen, Task.store, Prog.run_bind]

theorem roundOf {env : Env} (hW : Workers env) {t : Task} (hen : t.enabled = true) (w : World) :
    RoundOf env t w ((round env t).run w) := by
  cases hprint : t.describeError env w with
  | some e =>
      have hrun : (round env t).run w = ⟨.error e, w, []⟩ := by
        unfold round
        rw [Prog.run_bind, Task.run_describe, hprint]
        rfl
      rw [hrun]
      refine ⟨Touches.refl env t w, NameUsed.refl _ w, fun _ _ h => (List.not_mem_nil h).elim,
        fun h => ?_, fun h => ?_, fun _ => ⟨⟨e, rfl⟩, fun _ _ => List.not_mem_nil⟩⟩
      · have hnone := h.printed
        rw [hprint] at hnone
        cases hnone
      · have hnone := h.printed
        rw [hprint] at hnone
        cases hnone
  | none =>
      have hs : Stores env t w (w.putTask t) := stores_putTask rfl w
      have hdue : Due env t (w.putTask t) ↔ Due env t w :=
        ⟨fun h => ⟨h.printed, h.idle, h.queue, h.next, h.free⟩,
          fun h => ⟨h.printed, h.idle, h.queue, h.next, h.free⟩⟩
      have hquiet : Quiet env t (w.putTask t) ↔ Quiet env t w :=
        ⟨fun h => ⟨h.printed, h.queue, h.state⟩, fun h => ⟨h.printed, h.queue, h.state⟩⟩
      have hstage := ((stage_schedule hW (w := w.putTask t) hen hprint).after hs).congr hdue.symm
        hquiet.symm
      rw [run_round hprint]
      rcases ho : (t.schedule env).run (w.putTask t) with ⟨e | y, w', es⟩
      · rw [ho] at hstage
        refine ⟨hstage.touches, hstage.name, hstage.own, fun h => ?_, fun h => ?_,
          fun h => ⟨⟨e, rfl⟩, (hstage.refused h.1 h.2).events⟩⟩
        · obtain ⟨y, hy, -⟩ := hstage.made h
          cases hy
        · obtain ⟨y, hy, -⟩ := hstage.kept h
          cases hy
      · rw [ho] at hstage
        have hend : ((⟨.ok y, w', es⟩ : Prog.Outcome World Event PyError Task).andThen fun y => do
            y.store
            pure ()) = ⟨.ok (), w'.putTask y, es⟩ := by
          simp [Prog.Outcome.andThen, Task.store, Prog.run_bind]
        have hcases : Due env t w ∨ Quiet env t w := by
          by_contra hnone
          obtain ⟨e, he⟩ := (hstage.refused (fun h => hnone (.inl h)) fun h => hnone (.inr h)).val
          cases he
        have hid : y.id = t.id := by
          rcases hcases with h | h
          · obtain ⟨y', hy', hid, -⟩ := hstage.made h
            cases hy'
            exact hid
          · obtain ⟨y', hy', hid⟩ := hstage.kept h
            cases hy'
            exact hid
        rw [hend]
        have hlast : Stores env t w' (w'.putTask y) := stores_putTask hid w'
        refine ⟨hstage.touches.trans hlast.touches, hstage.name.stores hlast, hstage.own,
          fun h => ⟨rfl, ?_⟩, fun _ => rfl, fun h => (hcases.elim h.1 h.2).elim⟩
        obtain ⟨y', hy', -, hqueue, hjob, hevent, hpending⟩ := hstage.made h
        cases hy'
        refine ⟨⟨y, ?_, hjob, t.nextName w, hjob, ?_⟩, hevent⟩
        · show (w'.tasks.put y).find? t.id = some y
          rw [TaskTable.find?_put, if_pos hid.symm]
        · rw [hqueue]
          exact hpending.imp id .inl

/-! ## The rounds of other tasks -/

section Others

variable {env : Env} {t x : Task} {w w' : World}

/-- The task does not hold the name of the next job of `x`. -/
def NameApart (t x : Task) (now : Int) : Prop := ∀ n, t.jobName = some n → n ≠ x.nextJobId now

theorem Touches.pending_iff (h : Touches env x w w') {r : Task}
    (hname : ∀ n, r.jobName = some n → n ≠ x.nextName w) : r.Pending w' ↔ r.Pending w := by
  unfold Task.Pending
  refine exists_congr fun n => and_congr_right fun hn => ?_
  have hne := hname n hn
  rw [h.inRegistry_iff hne, h.inRegistry_iff hne, h.inRegistry_iff hne]

theorem Touches.describeError (h : Touches env x w w') (t : Task) :
    t.describeError env w' = t.describeError env w := by
  unfold Task.describeError
  rw [h.taskArgs, h.taskKwargs]

theorem nextName_ne (hid : x.id ≠ t.id) (now : Int) : t.nextJobId now ≠ x.nextJobId now :=
  fun h => hid (id_of_nextJobId h).symm

theorem Touches.jobFree_iff (h : Touches env x w w') (hid : x.id ≠ t.id) :
    t.JobFree env w' ↔ t.JobFree env w := by
  have hfind : w'.jobs.find? (t.nextJobId w.now) = w.jobs.find? (t.nextJobId w.now) :=
    h.jobs _ (nextName_ne hid w.now)
  have hexists : w'.jobExists (t.nextJobId w.now) = w.jobExists (t.nextJobId w.now) := by
    unfold World.jobExists
    rw [Bool.eq_iff_iff, TtlMap.contains_iff, TtlMap.contains_iff, hfind]
  unfold Task.JobFree Task.nextName
  rw [h.now, hexists]

theorem Touches.due_iff (h : Touches env x w w') (hid : x.id ≠ t.id) (hname : NameApart t x w.now) :
    Due env t w' ↔ Due env t w := by
  have hpending : t.Pending w' ↔ t.Pending w := h.pending_iff hname
  have hfree : t.JobFree env w' ↔ t.JobFree env w := h.jobFree_iff hid
  constructor
  · rintro ⟨hprint, hidle, hq, hnext, hf⟩
    rw [h.describeError t] at hprint
    rw [h.now] at hnext
    exact ⟨hprint, fun hp => hidle (hpending.2 hp), hq, hnext, hfree.1 hf⟩
  · rintro ⟨hprint, hidle, hq, hnext, hf⟩
    rw [← h.describeError t] at hprint
    rw [← h.now] at hnext
    exact ⟨hprint, fun hp => hidle (hpending.1 hp), hq, hnext, hfree.2 hf⟩

theorem Touches.quiet_iff (h : Touches env x w w') (hname : NameApart t x w.now) :
    Quiet env t w' ↔ Quiet env t w := by
  have hpending : t.Pending w' ↔ t.Pending w := h.pending_iff hname
  constructor
  · rintro ⟨hprint, hq, hstate⟩
    rw [h.describeError t] at hprint
    rw [h.now] at hstate
    exact ⟨hprint, hq, hstate.imp hpending.1 fun hl => hl⟩
  · rintro ⟨hprint, hq, hstate⟩
    rw [← h.describeError t] at hprint
    rw [← h.now] at hstate
    exact ⟨hprint, hq, hstate.imp hpending.2 fun hl => hl⟩

theorem HasJob.touched {es : List Event} (hjob : HasJob t (t.nextName w) w es) (h : Touches env x w w')
    (hid : x.id ≠ t.id) (es' : List Event) : HasJob t (t.nextName w) w' (es ++ es') := by
  obtain ⟨⟨r, hrow, hn, hp⟩, hevent⟩ := hjob
  refine ⟨⟨r, (h.rows t.id fun heq => hid heq.symm).trans hrow, hn, ?_⟩, List.mem_append_left _ hevent⟩
  refine (h.pending_iff fun n hn' => ?_).2 hp
  rw [hn] at hn'
  cases hn'
  exact nextName_ne hid w.now

end Others

/-! ## The loop -/

/-- The enabled tasks of a table: the ids are distinct, and no task holds the name of the next job of
another one. -/
structure Listed (now : Int) (l : List Task) : Prop where
  enabled : ∀ t ∈ l, t.enabled = true
  nodup : (l.map Task.id).Nodup
  names : ∀ t ∈ l, ∀ x ∈ l, t.id ≠ x.id → NameApart t x now

section Loop

variable {env : Env} {now : Int} {l : List Task}

theorem Listed.id_ne (h : Listed now l) {t x : Task} (ht : t ∈ l) (hx : x ∈ l) (hne : x ≠ t) :
    x.id ≠ t.id :=
  fun hid => hne (List.inj_on_of_nodup_map h.nodup hx ht hid)

theorem rounds_apart (hW : Workers env) (h : Listed now l) :
    Rounds.Apart (fun w => w.now = now) (Raises env) (round env) l where
  keeps := fun t ht w hw => (roundOf hW (h.enabled t ht) w).touches.now.trans hw
  returns := fun t ht w _ hfine => by
    have hround := roundOf hW (h.enabled t ht) w
    by_cases hdue : Due env t w
    · exact (hround.due hdue).1
    · refine hround.quiet ?_
      by_contra hquiet
      exact hfine ⟨hdue, hquiet⟩
  raises := fun t ht w _ hraises => ((roundOf hW (h.enabled t ht) w).raises hraises).val
  apart := fun x hx t ht hne w hw => by
    have htouches := (roundOf hW (h.enabled x hx) w).touches
    have hid := h.id_ne ht hx hne
    have hname : NameApart t x w.now := by
      rw [hw]
      exact h.names t ht x hx fun heq => hid heq.symm
    unfold Raises
    rw [Prog.exec, htouches.due_iff hid hname, htouches.quiet_iff hname]

theorem rounds_serve (hW : Workers env) (h : Listed now l) {t : Task} (ht : t ∈ l) :
    Rounds.Serves (fun w => w.now = now) (Raises env) (round env) l t (Due env t)
      (fun c => ∀ n, .taskScheduled t.id n ∉ c.2)
      (fun c => HasJob t (t.nextJobId now) c.1 c.2) where
  serve := fun c hw hdue _ => by
    obtain ⟨-, hrow, hevent⟩ := (roundOf hW (h.enabled t ht) c.1).due hdue
    unfold Task.nextName at hrow hevent
    rw [hw] at hrow hevent
    exact ⟨hrow, List.mem_append_right _ hevent⟩
  failed := fun c _ hfails hpend n hn => by
    rcases List.mem_append.1 hn with hn | hn
    · exact hpend n hn
    · exact ((roundOf hW (h.enabled t ht) c.1).raises hfails).events _ n hn
  wants := fun x hx hne w hw hdue => by
    have hid := h.id_ne ht hx hne
    have hname : NameApart t x w.now := by
      rw [hw]
      exact h.names t ht x hx fun heq => hid heq.symm
    exact ((roundOf hW (h.enabled x hx) w).touches.due_iff hid hname).2 hdue
  pend := fun x hx hne c _ hpend n hn => by
    rcases List.mem_append.1 hn with hn | hn
    · exact hpend n hn
    · exact h.id_ne ht hx hne ((roundOf hW (h.enabled x hx) c.1).own _ n hn).symm
  got := fun x hx hne c hw hgot => by
    have htouches := (roundOf hW (h.enabled x hx) c.1).touches
    have hname : t.nextJobId now = t.nextName c.1 := by
      unfold Task.nextName
      rw [hw]
    rw [hname] at hgot ⊢
    exact hgot.touched htouches (h.id_ne ht hx hne) _

end Loop

end DailyScheduler.Rescheduling
