import DailyScheduler.Lib.Reaches
import DailyScheduler.Model.Effects
import DailyScheduler.Model.Sample

set_option autoImplicit false

/-! # Workers that clean the same queues

`Worker.clean_registries` takes a `QueueLock` before it cleans a queue, so that "we only want 1
worker to run clean_registries()". The lock's key is made from the name of the worker, not from
that of the queue: a worker never waits for another one. Exclusion therefore holds, in every
interleaving, exactly when no queue is cleaned by two workers.
-/

namespace DailyScheduler

open AtomicProg

/-- What the workers share: the world, and the keys `_lock:queue:<name>` at the broker. -/
structure CleaningSite where
  world : World
  queueLocks : TtlMap String Nat

/-- The clock moves on by `d` microseconds. -/
def CleaningSite.advance (s : CleaningSite) (d : Nat) : CleaningSite where
  world := s.world.advance d
  queueLocks := s.queueLocks.purge (s.world.now + d)

/-- `SET key value NX EX` for the key of a queue lock: whether it was set, and the site after. -/
def CleaningSite.setLockNx (s : CleaningSite) (name : String) (val : Nat) (d : Int) :
    Bool × CleaningSite :=
  if s.queueLocks.contains name then (false, s)
  else (true, { s with queueLocks := s.queueLocks.set name val (some d) })

/-- What happens while workers clean: an event of the world, the begin and the end of a call of
`Queue.clean_registries`, and the passing of time. -/
inductive CleaningEvent where
  | inner (e : Event)
  | entered (q : QueueName)
  | left (q : QueueName)
  | ticked (d : Nat)
  deriving DecidableEq

abbrev Cleaning (α : Type) := Prog CleaningSite CleaningEvent PyError α

/-- A program over the world, at the site. -/
def onWorld {α : Type} (p : Py α) : Cleaning α :=
  p.zoom CleaningSite.world (fun w s => { s with world := w }) .inner

namespace QueueLock

/-- `KvLock.acquire` of `QueueLock(name)`. -/
def acquire (name : String) (val : Nat) (expire : Int) : Cleaning Bool :=
  Prog.command (fun s => s.setLockNx name val (s.world.now + secs expire)) (fun _ => [])

/-- `KvLock.release` of `QueueLock(name)`. -/
def release (name : String) : Cleaning Unit :=
  Prog.write fun s => { s with queueLocks := s.queueLocks.erase name }

end QueueLock

namespace Worker

/-- What a worker does with the lock. An exception of `Queue.clean_registries` leaves the lock as
it is. `WorkerModel.cleanup` changes only the index sets of workers. -/
def cleanLocked (env : Env) (w : Worker) (queue : Queue) : Cleaning Unit := do
  Prog.emit (.entered queue.name)
  let r ← (onWorld (queue.cleanRegistries env none)).attempt
  Prog.emit (.left queue.name)
  match r with
  | .error x => throw x
  | .ok _ => QueueLock.release w.name

/-- The body of the loop of `clean_registries`. The lock is named after the worker. -/
def cleanQueue (env : Env) (w : Worker) (queue : Queue) : Cleaning Unit := do
  let acquired ← QueueLock.acquire w.name 1 899
  if acquired then w.cleanLocked env queue else pure ()

/-- `clean_registries`. -/
def cleanRegistries (env : Env) (w : Worker) (queues : List Queue) : Cleaning Unit :=
  Prog.forEach queues (w.cleanQueue env)

/-- Some calls of `clean_registries`, one after the other, however each of them ends. -/
def cleanTimes (env : Env) (w : Worker) (queues : List Queue) : Nat → Cleaning Unit
  | 0 => pure ()
  | n + 1 => do
      let _ ← (w.cleanRegistries env queues).attempt
      w.cleanTimes env queues n

end Worker

/-- The passing of time, in ticks of some microseconds. -/
def ticking (ticks : List Nat) : Cleaning Unit :=
  Prog.forEach ticks fun d => .act (·.advance d) (fun _ => [.ticked d]) fun _ => .ret ()

variable {ι : Type}

/-- Workers that each call `clean_registries` some times, and the clock. -/
def cleaningPool (env : Env) (workers : ι → Worker) (queues : ι → List Queue) (calls : ι → Nat)
    (ticks : List Nat) (s : CleaningSite) :
    Pool (Option ι) CleaningSite CleaningEvent PyError Unit where
  threads := fun i => match i with
    | none => ticking ticks
    | some i => (workers i).cleanTimes env (queues i) (calls i)
  state := s
  log := []

/-! ## Where a worker is -/

section

variable [DecidableEq ι]

/-- The queue a worker is cleaning, and the microseconds since it entered, after one more
event. -/
def follow (i : ι) (pos : Option (QueueName × Nat)) :
    Option ι × CleaningEvent → Option (QueueName × Nat)
  | (j, .entered q) => if j = some i then some (q, 0) else pos
  | (j, .left _) => if j = some i then none else pos
  | (_, .ticked d) => pos.map fun p => (p.1, p.2 + d)
  | (_, .inner _) => pos

/-- The queue a worker is cleaning, if any, and for how long it has been cleaning it. -/
def position (i : ι) (log : List (Option ι × CleaningEvent)) : Option (QueueName × Nat) :=
  log.foldl (follow i) none

variable (P : Pool (Option ι) CleaningSite CleaningEvent PyError Unit)

/-- The worker is inside `Queue.clean_registries` for the queue. -/
def Inside (i : ι) (q : QueueName) : Prop := ∃ t, position i P.log = some (q, t)

/-- No queue is being cleaned by two workers. -/
def Exclusive : Prop := ∀ q i j, Inside P i q → Inside P j q → i = j

/-- No worker has been inside for 899 seconds. -/
def Brief : Prop := ∀ i q t, position i P.log = some (q, t) → (t : Int) < secs 899

end

/-! ## What the threads emit -/

/-- The events of a worker that cleans some queues, and of the clock. -/
def Emitted (queues : ι → List Queue) (ticks : List Nat) : Option ι → CleaningEvent → Prop
  | some i, .entered q => ∃ queue ∈ queues i, queue.name = q
  | some _, .ticked _ => False
  | some _, _ => True
  | none, e => ∃ d ∈ ticks, e = .ticked d

section

variable {env : Env} {queues : ι → List Queue} {ticks : List Nat}

theorem cleanQueue_steps (w : Worker) {i : ι} {queue : Queue} (h : queue ∈ queues i) :
    (w.cleanQueue env queue).Steps (fun _ _ es => ∀ e ∈ es, Emitted queues ticks (some i) e)
      fun _ => True := by
  refine Prog.Steps.bind (Prog.Steps.command fun _ => by simp) fun acquired _ => ?_
  cases acquired with
  | false => trivial
  | true =>
      have hinner : (onWorld (queue.cleanRegistries env none)).Steps
          (fun _ _ es => ∀ e ∈ es, Emitted queues ticks (some i) e) fun _ => True := by
        refine (Prog.zoom_steps _).mono (fun _ _ es hes e he => ?_) fun _ => id
        obtain ⟨e', rfl⟩ := hes e he
        trivial
      refine Prog.Steps.bind (Prog.Steps.emit fun _ => ?_) fun _ _ => ?_
      · intro e he
        rw [List.mem_singleton.1 he]
        exact ⟨queue, h, rfl⟩
      refine Prog.Steps.bind hinner.attempt fun r _ => ?_
      refine Prog.Steps.bind (Prog.Steps.emit fun _ => ?_) fun _ _ => ?_
      · intro e he
        rw [List.mem_singleton.1 he]
        trivial
      cases r with
      | error x => trivial
      | ok _ => exact Prog.Steps.write fun _ => by simp

theorem cleanTimes_steps (w : Worker) (i : ι) (n : Nat) :
    (w.cleanTimes env (queues i) n).Steps
      (fun _ _ es => ∀ e ∈ es, Emitted queues ticks (some i) e) fun _ => True := by
  induction n with
  | zero => trivial
  | succ n ih =>
      have hcall : (w.cleanRegistries env (queues i)).Steps
          (fun _ _ es => ∀ e ∈ es, Emitted queues ticks (some i) e) fun _ => True :=
        Prog.Steps.forEach fun queue hq => cleanQueue_steps w hq
      exact Prog.Steps.bind hcall.attempt fun _ _ => ih

theorem ticking_steps (queues : ι → List Queue) (ticks : List Nat) :
    (ticking ticks).Steps (fun _ _ es => ∀ e ∈ es, Emitted queues ticks none e)
      fun _ => True := by
  refine Prog.Steps.forEach fun d hd => fun s => ⟨fun e he => ?_, trivial⟩
  rw [List.mem_singleton.1 he]
  exact ⟨d, hd, rfl⟩

/-- In every run of the pool each thread emits its own events only. -/
theorem emitted_along [DecidableEq ι] (workers : ι → Worker) (calls : ι → Nat)
    (s : CleaningSite) (l : List (Option ι)) :
    Run.Along Pool.step (fun P => ∀ x ∈ P.log, Emitted queues ticks x.1 x.2)
      (cleaningPool env workers queues calls ticks s) l := by
  refine Pool.Emits.along (fun i => ?_) (fun x hx => by cases hx) l
  cases i with
  | none => exact ticking_steps queues ticks
  | some i => exact cleanTimes_steps _ i _

end

section

variable [DecidableEq ι]

/-- A worker that has just entered is inside. -/
theorem position_entered (i : ι) (log : List (Option ι × CleaningEvent)) (es : List CleaningEvent)
    (q : QueueName) :
    position i (log ++ (es ++ [CleaningEvent.entered q]).map fun e => (some i, e)) = some (q, 0) := by
  rw [List.map_append, ← List.append_assoc, position, List.foldl_append]
  simp [follow]

/-- A worker inside has entered. -/
theorem entered_of_position {i : ι} {log : List (Option ι × CleaningEvent)} {q : QueueName}
    {t : Nat} (h : position i log = some (q, t)) : (some i, .entered q) ∈ log := by
  induction log using List.reverseRecOn generalizing t with
  | nil => cases h
  | append_singleton log x ih =>
      rw [position, List.foldl_append] at h
      change follow i (position i log) x = some (q, t) at h
      rw [List.mem_append, List.mem_singleton]
      obtain ⟨j, e⟩ := x
      cases e with
      | inner e => exact .inl (ih h)
      | entered q' =>
          simp only [follow] at h
          split at h
          · rename_i hj
            cases h
            exact .inr (by rw [hj])
          · exact .inl (ih h)
      | left q' =>
          simp only [follow] at h
          split at h
          · cases h
          · exact .inl (ih h)
      | ticked d =>
          simp only [follow, Option.map_eq_some_iff] at h
          obtain ⟨p, hp, heq⟩ := h
          cases heq
          exact .inl (ih hp)

/-- While no time passes, nobody has been inside for any time. -/
theorem position_of_no_tick {i : ι} {log : List (Option ι × CleaningEvent)} {q : QueueName}
    {t : Nat} (hlog : ∀ x ∈ log, ∀ d, x.2 ≠ .ticked d) (h : position i log = some (q, t)) :
    t = 0 := by
  induction log using List.reverseRecOn generalizing t with
  | nil => cases h
  | append_singleton log x ih =>
      have hbefore : position i log = some (q, t) → t = 0 :=
        ih fun y hy => hlog y (List.mem_append_left _ hy)
      have hx := hlog x (by simp)
      rw [position, List.foldl_append] at h
      change follow i (position i log) x = some (q, t) at h
      obtain ⟨j, e⟩ := x
      cases e with
      | inner e => exact hbefore h
      | entered q' =>
          simp only [follow] at h
          split at h
          · cases h
            rfl
          · exact hbefore h
      | left q' =>
          simp only [follow] at h
          split at h
          · cases h
          · exact hbefore h
      | ticked d => exact absurd rfl (hx d)

/-- What another worker does without time passing moves nobody. -/
theorem position_append_other {i j : ι} (hij : j ≠ i) (log : List (Option ι × CleaningEvent))
    {es : List CleaningEvent} (hes : ∀ e ∈ es, ∀ d, e ≠ .ticked d) :
    position i (log ++ es.map fun e => (some j, e)) = position i log := by
  induction es generalizing log with
  | nil => simp
  | cons e es ih =>
      have hrest := ih (log ++ [(some j, e)]) fun e' he' => hes e' (List.mem_cons_of_mem e he')
      rw [List.map_cons, ← List.singleton_append, ← List.append_assoc, hrest, position,
        List.foldl_append]
      show follow i (position i log) (some j, e) = position i log
      cases e with
      | inner e => rfl
      | entered q => simp [follow, hij]
      | left q => simp [follow, hij]
      | ticked d => exact absurd rfl (hes _ List.mem_cons_self d)

end

/-! ## A run into two workers' queues -/

theorem run_onWorld {α : Type} (p : Py α) (s : CleaningSite) :
    (onWorld p).run s = ⟨(p.run s.world).val, { s with world := (p.run s.world).state },
      (p.run s.world).trace.map .inner⟩ := by
  refine Prog.run_zoom ?_ ?_ ?_ p s
  · exact fun _ _ => rfl
  · exact fun _ _ _ => rfl
  · exact fun _ => rfl

/-- Cleaning a queue of an empty world finds nothing and changes nothing. -/
theorem run_cleanRegistries_init (env : Env) (queue : Queue) :
    (queue.cleanRegistries env none).run (World.init 0) = ⟨.ok (), World.init 0, []⟩ := by
  rfl

/-- The world is empty, and the locks of the given names are free. -/
def Ready (names : List String) (s : CleaningSite) : Prop :=
  s.world = World.init 0 ∧ ∀ n ∈ names, s.queueLocks.contains n = false

/-- The lock of a name that is ready can be taken; the other ones stay as they are. -/
theorem setLockNx_ready {names : List String} {name : String} {s : CleaningSite}
    (hs : Ready names s) (hmem : name ∈ names) (val : Nat) (d : Int) :
    (s.setLockNx name val d).1 = true ∧ (s.setLockNx name val d).2.world = World.init 0 ∧
      ∀ n ∈ names, n ≠ name → (s.setLockNx name val d).2.queueLocks.contains n = false := by
  have hfree := hs.2 name hmem
  unfold CleaningSite.setLockNx
  rw [if_neg (by simp [hfree])]
  refine ⟨rfl, hs.1, fun n hn hne => ?_⟩
  have hother := hs.2 n hn
  rw [TtlMap.contains_eq_false_iff] at hother ⊢
  rw [TtlMap.find?_set, if_neg hne]
  exact hother

/-- Cleaning a queue of an empty world returns and frees the lock again. -/
theorem run_cleanQueue (env : Env) (w : Worker) (queue : Queue) {names : List String}
    (hname : w.name ∈ names) {s : CleaningSite} (hs : Ready names s) :
    ((w.cleanQueue env queue).run s).val = .ok () ∧
      Ready names ((w.cleanQueue env queue).exec s) := by
  obtain ⟨htaken, hworld, hothers⟩ := setLockNx_ready hs hname 1 (s.world.now + secs 899)
  have hinner : ((onWorld (queue.cleanRegistries env none)).attempt).run
      (s.setLockNx w.name 1 (s.world.now + secs 899)).2
      = ⟨.ok (.ok ()), (s.setLockNx w.name 1 (s.world.now + secs 899)).2, []⟩ := by
    rw [Prog.run_attempt, run_onWorld, hworld, run_cleanRegistries_init, ← hworld]
    exact rfl
  have hrun : (w.cleanQueue env queue).run s = ⟨.ok (),
      { (s.setLockNx w.name 1 (s.world.now + secs 899)).2 with
        queueLocks := (s.setLockNx w.name 1 (s.world.now + secs 899)).2.queueLocks.erase w.name },
      [.entered queue.name, .left queue.name]⟩ := by
    simp only [Worker.cleanQueue, Worker.cleanLocked, QueueLock.acquire, QueueLock.release, Prog.run_bind,
      Prog.run_command, htaken, if_true, Prog.Outcome.andThen_ok, Prog.run_emit, hinner,
      Prog.run_write, List.nil_append, List.append_nil, List.singleton_append]
  rw [Prog.exec, hrun]
  refine ⟨rfl, hworld, fun n hn => ?_⟩
  show TtlMap.contains (TtlMap.erase _ w.name) n = false
  rw [TtlMap.contains_eq_false_iff, TtlMap.find?_erase]
  split
  · rfl
  · rename_i hne
    exact (TtlMap.contains_eq_false_iff _ _).1 (hothers n hn hne)

/-- A worker of an empty world can come to the point where it has just entered any of its
queues. -/
theorem reaches_entered (env : Env) (w : Worker) {queues : List Queue} {queue : Queue}
    (hq : queue ∈ queues) (n : Nat) {names : List String} (hname : w.name ∈ names)
    {s : CleaningSite} (hs : Ready names s) :
    ∃ es p' s', (w.cleanTimes env queues (n + 1)).Reaches s (es ++ [.entered queue.name]) p' s' ∧
      Ready (names.filter (· ≠ w.name)) s' := by
  obtain ⟨before, after, rfl⟩ := List.append_of_mem hq
  have hrounds : ∃ es s₁, Ready names s₁ ∧
      (w.cleanRegistries env (before ++ queue :: after)).Reaches s es
        (w.cleanQueue env queue >>= fun _ => w.cleanRegistries env after) s₁ :=
    Prog.reaches_forEach (fun queue' _ s hs => run_cleanQueue env w queue' hname hs) hs
  obtain ⟨es, s₁, hs₁, hloop⟩ := hrounds
  obtain ⟨htaken, hworld, hothers⟩ := setLockNx_ready hs₁ hname 1 (s₁.world.now + secs 899)
  -- the lock is free, and the worker enters the queue
  have hacquire := Prog.reaches_bind (s := s₁)
    (fun acquired => if acquired = true then w.cleanLocked env queue else pure ())
    (p := QueueLock.acquire w.name 1 899) (congrArg Except.ok htaken)
  have hemit : (w.cleanLocked env queue).Reaches
      (s₁.setLockNx w.name 1 (s₁.world.now + secs 899)).2 [.entered queue.name] _ _ :=
    Prog.reaches_bind _ rfl
  have henter := hacquire.trans hemit
  have hcall := (hloop.trans (henter.bind _)).attempt.bind fun _ =>
    w.cleanTimes env (before ++ queue :: after) n
  refine ⟨es, _, _, hcall, hworld, fun name hmem => ?_⟩
  obtain ⟨hmem, hne⟩ := List.mem_filter.1 hmem
  exact hothers name hmem (by simpa using hne)

section

variable [DecidableEq ι] {env : Env} {workers : ι → Worker} {queues : ι → List Queue}

theorem brief_along (calls : ι → Nat) (s : CleaningSite) (l : List (Option ι)) :
    Run.Along Pool.step Brief (cleaningPool env workers queues calls [] s) l := by
  refine (emitted_along workers calls s l).mono fun P hP i q t h => ?_
  have hzero : t = 0 := by
    refine position_of_no_tick (fun x hx d hd => ?_) h
    obtain ⟨j, e⟩ := x
    have he := hP (j, e) hx
    cases hd
    cases j with
    | none =>
        obtain ⟨d', hd', -⟩ := he
        cases hd'
    | some j => exact he
  rw [hzero]
  decide

/-- Workers whose queues are not shared are never in the same queue. -/
theorem exclusive_along (h : ∀ i j, i ≠ j → ∀ q ∈ queues i, ∀ q' ∈ queues j, q.name ≠ q'.name)
    (calls : ι → Nat) (ticks : List Nat) (s : CleaningSite) (l : List (Option ι)) :
    Run.Along Pool.step Exclusive (cleaningPool env workers queues calls ticks s) l := by
  refine (emitted_along workers calls s l).mono fun P hP q i j hi hj => ?_
  obtain ⟨t, hi⟩ := hi
  obtain ⟨t', hj⟩ := hj
  obtain ⟨qi, hqi, hni⟩ := hP _ (entered_of_position hi)
  obtain ⟨qj, hqj, hnj⟩ := hP _ (entered_of_position hj)
  by_contra hij
  exact h i j hij qi hqi qj hqj (hni.trans hnj.symm)

/-- Two workers with different names come into a queue that both of them clean. -/
theorem exists_not_exclusive {i j : ι} (hij : i ≠ j) (hname : (workers i).name ≠ (workers j).name)
    {q q' : Queue} (hq : q ∈ queues i) (hq' : q' ∈ queues j) (hqq' : q.name = q'.name) :
    ∃ l, ¬ Exclusive ((cleaningPool env workers queues (fun _ => 1) []
      ⟨World.init 0, .empty⟩).exec l) := by
  have hstart : Ready [(workers i).name, (workers j).name] ⟨World.init 0, .empty⟩ :=
    ⟨rfl, fun _ _ => rfl⟩
  -- the first worker enters, and then the second one
  obtain ⟨es, p, s₁, hfirst, hs₁⟩ :=
    reaches_entered env (workers i) hq 0 (by simp) hstart
  obtain ⟨es', p', s₂, hsecond, -⟩ := reaches_entered env (workers j) hq' 0
    (List.mem_filter.2 ⟨by simp, by simpa using hname.symm⟩) hs₁
  obtain ⟨n, hn⟩ := Pool.exists_exec_of_reaches (i := some i)
    (P := cleaningPool env workers queues (fun _ => 1) [] ⟨World.init 0, .empty⟩) hfirst
  obtain ⟨m, hm⟩ := Pool.exists_exec_of_reaches (i := some j)
    (P := (cleaningPool env workers queues (fun _ => 1) [] ⟨World.init 0, .empty⟩).exec
      (List.replicate n (some i)))
    (by rw [hn]; simpa [Function.update_of_ne, hij.symm, cleaningPool] using hsecond)
  have hend : ((cleaningPool env workers queues (fun _ => 1) [] ⟨World.init 0, .empty⟩).exec
      (List.replicate n (some i) ++ List.replicate m (some j))).log
      = ([] ++ (es ++ [CleaningEvent.entered q.name]).map fun e => (some i, e))
        ++ (es' ++ [CleaningEvent.entered q'.name]).map fun e => (some j, e) := by
    rw [Pool.exec_append, hm, hn]
    rfl
  have hevents : ∀ x ∈ ((cleaningPool env workers queues (fun _ => 1) []
      ⟨World.init 0, .empty⟩).exec (List.replicate n (some i) ++ List.replicate m (some j))).log,
      Emitted queues [] x.1 x.2 :=
    (emitted_along workers (fun _ => 1) _ _).last
  refine ⟨List.replicate n (some i) ++ List.replicate m (some j), fun hexcl => ?_⟩
  refine hij (hexcl q.name i j ⟨0, ?_⟩ ⟨0, ?_⟩)
  · rw [hend, position_append_other hij.symm]
    · exact position_entered i [] es q.name
    · intro e he d hd
      have hlog := hevents (some j, e)
      rw [hend] at hlog
      have htick := hlog (List.mem_append_right _ (List.mem_map_of_mem he))
      rw [hd] at htick
      exact htick
  · rw [hend, hqq']
    exact position_entered j _ es' q'.name

/-- **When the lock excludes.** Whatever the runs of workers with distinct names, as long as no
call lasts 899 seconds no queue is cleaned by two of them at a time, if and only if no queue is
cleaned by two of them at all. -/
theorem exclusive_iff (hnames : Function.Injective fun i => (workers i).name) :
    (∀ calls ticks s l,
      Run.Along Pool.step Brief (cleaningPool env workers queues calls ticks s) l →
      Run.Along Pool.step Exclusive (cleaningPool env workers queues calls ticks s) l) ↔
    ∀ i j, i ≠ j → ∀ q ∈ queues i, ∀ q' ∈ queues j, q.name ≠ q'.name := by
  constructor
  · intro h i j hij q hq q' hq' hqq'
    have hdiff : (workers i).name ≠ (workers j).name := fun hname => hij (hnames hname)
    obtain ⟨l, hl⟩ := @exists_not_exclusive _ _ env workers queues i j hij hdiff q q' hq hq' hqq'
    exact hl (h _ _ _ l (brief_along _ _ l)).last
  · intro h calls ticks s l _
    exact exclusive_along h calls ticks s l

end

/-- The workers `a` and `b`. -/
def twoWorkers (i : Bool) : Worker := Sample.worker (if i then "b" else "a")

/-- One queue for each of them. -/
def ownQueue (i : Bool) : List Queue := [if i then Sample.queue else Sample.syncQueue]

theorem twoWorkers_injective : Function.Injective fun i => (twoWorkers i).name := by
  unfold Function.Injective
  decide

/-- Two workers of which each has a queue of its own. -/
theorem exclusive_iff_own_queues :
    (∀ calls ticks s l,
      Run.Along Pool.step Brief (cleaningPool Sample.env twoWorkers ownQueue calls ticks s) l →
      Run.Along Pool.step Exclusive
        (cleaningPool Sample.env twoWorkers ownQueue calls ticks s) l) ↔
    ∀ i j, i ≠ j → ∀ q ∈ ownQueue i, ∀ q' ∈ ownQueue j, q.name ≠ q'.name :=
  exclusive_iff twoWorkers_injective

/-- The workers `a` and `b` of the queue `q` can clean it at the same time. -/
theorem not_exclusive_shared_queue :
    ¬ ∀ calls ticks s l,
      Run.Along Pool.step Brief
        (cleaningPool Sample.env twoWorkers (fun _ => [Sample.queue]) calls ticks s) l →
      Run.Along Pool.step Exclusive
        (cleaningPool Sample.env twoWorkers (fun _ => [Sample.queue]) calls ticks s) l := by
  intro h
  obtain ⟨l, hl⟩ := @exists_not_exclusive _ _ Sample.env twoWorkers (fun _ => [Sample.queue])
    false true (by decide) (by decide) Sample.queue Sample.queue (by simp) (by simp) rfl
  exact hl (h _ _ _ l (brief_along _ _ l)).last

end DailyScheduler
