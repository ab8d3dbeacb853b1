import DailyScheduler.Lib.Run
import DailyScheduler.Model.Sample
import DailyScheduler.Scheduling.Pass
import Mathlib.Data.List.TakeWhile

set_option autoImplicit false

/-! # Handing scheduled jobs over

One pass of `enqueue_scheduled_jobs` hands every due job of a queue over. On a queue with workers the
pipeline of `enqueue_job` takes the name out of the scheduled registry in the same step; a queue
without workers runs the job and leaves the name where it was, so that the next pass finds it again.

An entry of the scheduled registry is followed through a pass by the invariant `Entry`: its score, the
deadline of its record and how often it has been handed over.
-/

namespace DailyScheduler.Handover

open AtomicProg

/-- The event of handing a job of the queue over: it is queued, or called at once. -/
def handover (q : Queue) (n : JobName) : Event :=
  if q.isAsync then .enqueued q.name n else .called n

/-- The job `n` has the score `o` in the scheduled registry of `q`, its record is complete and has
the deadline `d`, and it was handed over `k` times. No other queue that runs its jobs at once has
it scheduled. -/
structure Entry (env : Env) (q : Queue) (n : JobName) (o d : Option Int) (k : Nat)
    (c : Config World Event) : Prop where
  score : (c.1.registry q.name .scheduled).score n = o
  loads : c.1.loadable n
  deadline : c.1.jobs.deadline n = d
  own : ∀ q', q' ≠ q.name → env.queues q' = some false → ¬ c.1.inRegistry q' .scheduled n
  count : c.2.count (handover q n) = k

/-- The job is scheduled in `q`. -/
def Waiting (q : Queue) (n : JobName) (c : Config World Event) : Prop :=
  c.1.inRegistry q.name .scheduled n

/-- The jobs that may be enqueued without touching the entry: other jobs, and the job itself by
another queue with workers. -/
def Other (env : Env) (q : Queue) (n : JobName) (q' : QueueName) (m : JobName) : Prop :=
  m ≠ n ∨ env.queues q' = some true ∧ q' ≠ q.name

/-- User code does not touch the entries of the job in the scheduled registry of `q`, nor its
record, and does not hand it over. -/
structure UserSpares (env : Env) (q : Queue) (n : JobName) : Prop where
  entry : ∀ o d k, UserKeeps env (Entry env q n o d k)
  waiting : UserKeeps env (Waiting q n)

section Entries

variable {env : Env} {q : Queue} {n : JobName} {o d : Option Int} {k : Nat}

/-- A change of the world that shows the entry nothing. -/
theorem Entry.of_frame {w w' : World} {t es : List Event} (h : Entry env q n o d k (w, t))
    (hreg : ∀ q', (w'.registry q' .scheduled).score n = (w.registry q' .scheduled).score n)
    (hloads : w'.loadable n) (hdeadline : w'.jobs.deadline n = w.jobs.deadline n)
    (hes : handover q n ∉ es) : Entry env q n o d k (w', t ++ es) where
  score := (hreg q.name).trans h.score
  loads := hloads
  deadline := hdeadline.trans h.deadline
  own := fun q' hne hsync => by
    rw [World.inRegistry_iff, hreg q', ← World.inRegistry_iff]
    exact h.own q' hne hsync
  count := by
    rw [List.count_append, List.count_eq_zero_of_not_mem hes]
    exact h.count

/-- No broker command, but an event that is no handing over. -/
theorem Entry.event {w : World} {t : List Event} {e : Event} (h : Entry env q n o d k (w, t))
    (he : e ≠ handover q n) : Entry env q n o d k (w, t ++ [e]) :=
  h.of_frame (fun _ => rfl) h.loads rfl (by simpa using Ne.symm he)

theorem Entry.same {w w' : World} {t : List Event} (h : Entry env q n o d k (w, t))
    (hreg : w'.registry = w.registry) (hjobs : w'.jobs = w.jobs) :
    Entry env q n o d k (w', t) := by
  have hloads : w'.loadable n := by
    unfold World.loadable
    rw [hjobs]
    exact h.loads
  have hend : Entry env q n o d k (w', t ++ []) :=
    h.of_frame (fun q' => by rw [hreg]) hloads (by rw [hjobs]) (by simp)
  simpa using hend

theorem deadline_saveJob {w : World} (h : w.loadable n) (j : JobModel) (sa : Bool) :
    (w.saveJob j sa).jobs.deadline n = w.jobs.deadline n := by
  simp only [World.saveJob]
  split
  · exact TtlMap.deadline_put ..
  · rename_i hne
    rw [TtlMap.deadline_erase, if_neg]
    rintro rfl
    -- the record is complete, so the save leaves some field in it
    exact hne (JobHash.nonempty_of_complete (World.find?_saveJob_self (Or.inl h)).2)

theorem Entry.saveJob {w : World} {t : List Event} (h : Entry env q n o d k (w, t))
    (j : JobModel) (sa : Bool) : Entry env q n o d k (w.saveJob j sa, t) := by
  have hend : Entry env q n o d k (w.saveJob j sa, t ++ []) :=
    h.of_frame (fun _ => rfl) (World.loadable_saveJob (Or.inl h.loads))
      (deadline_saveJob h.loads j sa) (by simp)
  simpa using hend

/-- A change of a registry that leaves the scheduled entries of the job alone. -/
theorem Entry.zadd {w : World} {t : List Event} (h : Entry env q n o d k (w, t))
    {q' : QueueName} {k' : RegistryKind} {m : JobName} (s : Int)
    (hne : k' = .scheduled → Other env q n q' m) : Entry env q n o d k (w.zadd q' k' m s, t) where
  score := by
    rw [World.score_zadd, if_neg]
    · exact h.score
    · rintro ⟨rfl, hk, rfl⟩
      rcases hne hk.symm with hm | hm
      · exact hm rfl
      · exact hm.2 rfl
  loads := h.loads
  deadline := h.deadline
  own := fun q'' hq'' hsync => by
    rw [World.inRegistry_zadd]
    rintro (⟨rfl, hk, rfl⟩ | hin)
    · rcases hne hk.symm with hm | hm
      · exact hm rfl
      · rw [hsync] at hm
        cases hm.1
    · exact h.own q'' hq'' hsync hin
  count := h.count

theorem Entry.zrem {w : World} {t : List Event} (h : Entry env q n o d k (w, t))
    {q' : QueueName} {k' : RegistryKind} {m : JobName}
    (hne : k' = .scheduled → Other env q n q' m) : Entry env q n o d k (w.zrem q' k' m, t) where
  score := by
    rw [World.score_zrem, if_neg]
    · exact h.score
    · rintro ⟨rfl, hk, rfl⟩
      rcases hne hk.symm with hm | hm
      · exact hm rfl
      · exact hm.2 rfl
  loads := h.loads
  deadline := h.deadline
  own := fun q'' hq'' hsync hin => h.own q'' hq'' hsync ((World.inRegistry_zrem ..).1 hin).2
  count := h.count

/-- The commands of an execution of another job. -/
theorem Entry.execStep {q' : QueueName} {m : JobName} (hm : m ≠ n) {w w' : World}
    {t es : List Event} (hs : ExecStep q' m w w' es) (h : Entry env q n o d k (w, t)) :
    Entry env q n o d k (w', t ++ es) := by
  have hother : ∀ k' : RegistryKind, k' = .scheduled → Other env q n q' m :=
    fun _ _ => Or.inl hm
  cases hs with
  | same => simpa using h
  | add k' s => simpa using h.zadd s (hother k')
  | remove => simpa using h.zrem (hother .active)
  | save j sa => simpa using h.saveJob j sa
  | persist =>
      obtain ⟨v, hv, hc⟩ := h.loads
      refine h.of_frame (fun _ => rfl) ⟨v, by simp [World.persistJob, hv], hc⟩ ?_ (by simp)
      simp [World.persistJob, TtlMap.deadline_persist, Ne.symm hm]
  | result r =>
      rw [List.append_nil]
      exact h.same rfl rfl
  | deleteResults =>
      rw [List.append_nil]
      exact h.same rfl rfl
  | saveWorker cfg model sa =>
      rw [List.append_nil]
      exact h.same rfl rfl
  | expireWorker name d' =>
      rw [List.append_nil]
      exact h.same rfl rfl
  | success => exact h.event (by unfold handover; split <;> simp)
  | failure => exact h.event (by unfold handover; split <;> simp)

theorem Entry.expireStep {m : JobName} (hm : m ≠ n) {w w' : World} {t es : List Event}
    (hs : ExpireStep m w w' es) (h : Entry env q n o d k (w, t)) :
    Entry env q n o d k (w', t ++ es) := by
  obtain ⟨v, hv, hc⟩ := h.loads
  have hne : ¬ n = m := Ne.symm hm
  cases hs with
  | expire d' =>
      refine h.of_frame (fun _ => rfl) ⟨v, by simp [World.expireJob, hv], hc⟩ ?_ (by simp)
      exact TtlMap.deadline_expireAt_of_ne _ _ hne
  | delete =>
      refine h.of_frame (fun _ => rfl) ⟨v, ?_, hc⟩ ?_ (by simp)
      · simp [World.deleteJob, TtlMap.find?_erase, hne, hv]
      · simp [World.deleteJob, TtlMap.deadline_erase, hne]

/-- The entry is spared by everything a pass does to other jobs. -/
theorem spared_entry (hU : UserSpares env q n) :
    Spared env (Other env q n) (Entry env q n o d k) where
  save := fun w t _ j sa _ h => h.saveJob j sa
  store := fun w t x h => h.same rfl rfl
  created := fun w t m h => h.event (by unfold handover; split <;> simp)
  taskScheduled := fun w t id m h => h.event (by unfold handover; split <;> simp)
  schedule := fun w t q' m s hm h => h.zadd s fun _ => hm
  push := fun w t q' m s hq' hm h => by
    have hremoved : Entry env q n o d k (w.zrem q' .scheduled m, t) := h.zrem fun _ => hm
    have hmoved : Entry env q n o d k ((w.zrem q' .scheduled m).zadd q' .queued m s, t) :=
      hremoved.zadd s fun hk => by cases hk
    refine hmoved.event ?_
    unfold handover
    split
    · intro he
      simp only [Event.enqueued.injEq] at he
      exact hm.elim (fun hne => hne he.2) fun hne => hne.2 he.1
    · simp
  exec := fun q' m hq' hm => by
    have hne : m ≠ n := hm.resolve_right fun h => by
      rw [hq'] at h
      cases h.1
    refine ⟨fun w t w' es hs h => h.execStep hne hs, fun w t h => h.event ?_⟩
    unfold handover
    split <;> simp [hne]
  expire := fun w t w' es q' m hq' hm hs h => by
    have hne : m ≠ n := hm.resolve_right fun h => by
      rw [hq'] at h
      cases h.1
    exact h.expireStep hne hs
  fresh := fun w t q' m h hfree => by
    refine Or.inl fun he => ?_
    subst he
    have hex := h.loads.jobExists
    rw [hfree] at hex
    cases hex
  user := hU.entry o d k

/-- On a queue that runs its jobs at once, nothing in a pass takes the name out. -/
theorem spared_waiting (hq : env.queues q.name = some false) (hU : UserSpares env q n) :
    Spared env (fun _ _ => True) (Waiting q n) where
  save := fun w t _ j sa _ h => h
  store := fun w t x h => h
  created := fun w t m h => h
  taskScheduled := fun w t id m h => h
  schedule := fun w t q' m s _ h => (World.inRegistry_zadd ..).2 (Or.inr h)
  push := fun w t q' m s hq' _ h => by
    refine (World.inRegistry_zadd ..).2 (Or.inr ((World.inRegistry_zrem ..).2 ⟨?_, h⟩))
    rintro ⟨rfl, -, -⟩
    rw [hq] at hq'
    cases hq'
  exec := fun q' m _ _ => by
    refine ⟨fun w t w' es hs h => ?_, fun w t h => h⟩
    cases hs with
    | add k' s hk => exact (World.inRegistry_zadd ..).2 (Or.inr h)
    | remove => exact (World.inRegistry_zrem ..).2 ⟨by simp, h⟩
    | same => exact h
    | save j sa => exact h
    | persist => exact h
    | result r => exact h
    | deleteResults => exact h
    | saveWorker cfg model sa => exact h
    | expireWorker name d' => exact h
    | success => exact h
    | failure => exact h
  expire := fun w t w' es q' m _ _ hs h => by
    cases hs with
    | expire d' => exact h
    | delete => exact h
  fresh := fun _ _ _ _ _ _ => trivial
  user := hU.waiting

end Entries

/-! ## The round of the queue -/

/-- The entries of a queue that are due at a timestamp. -/
def dueEntries (q : Queue) (timestamp : Int) (w : World) : List (Int × JobName) :=
  (w.registry q.name .scheduled).entries.filter fun p => p.1 ≤ timestamp

/-- The names a pass takes from the scheduled registry at a timestamp. -/
def takenNames (q : Queue) (timestamp : Int) (w : World) : List JobName :=
  (((w.registry q.name .scheduled).rangeByScore 0 timestamp).take 1000).map Prod.snd

/-- Every job scheduled in the queue has a record that loads and can be saved again. -/
def Recorded (env : Env) (q : Queue) (w : World) : Prop :=
  ∀ n, w.inRegistry q.name .scheduled n →
    ∃ j, JobModel.fetch env w n = some j ∧ j.serializable = true

theorem mem_takenNames {q : Queue} {T : Int} {w : World} {n : JobName}
    (h : n ∈ takenNames q T w) :
    ∃ s, (w.registry q.name .scheduled).score n = some s ∧ 0 ≤ s ∧ s ≤ T := by
  obtain ⟨p, hp, rfl⟩ := List.mem_map.1 h
  exact ⟨p.1, (SortedSet.mem_rangeByScore _ _ _ _ _).1 (List.mem_of_mem_take hp)⟩

theorem takenNames_nodup (q : Queue) (T : Int) (w : World) : (takenNames q T w).Nodup := by
  refine List.Nodup.sublist ?_ ((w.registry q.name .scheduled).rangeByScore_nodup 0 T)
  exact (List.take_sublist _ _).map Prod.snd

/-- With at most 1000 due entries every due name with a proper score is taken. -/
theorem mem_takenNames_of_due {q : Queue} {T : Int} {w : World} {n : JobName} {s : Int}
    (hfew : (dueEntries q T w).length ≤ 1000)
    (hs : (w.registry q.name .scheduled).score n = some s) (h0 : 0 ≤ s) (hT : s ≤ T) :
    n ∈ takenNames q T w := by
  have hsub : ((w.registry q.name .scheduled).rangeByScore 0 T).length
      ≤ (dueEntries q T w).length := by
    refine List.Sublist.length_le (List.monotone_filter_right _ fun p hp => ?_)
    simp only [decide_eq_true_eq] at hp ⊢
    exact hp.2
  unfold takenNames
  rw [List.take_of_length_le (hsub.trans hfew)]
  exact List.mem_map.2 ⟨(s, n), (SortedSet.mem_rangeByScore _ _ _ _ _).2 ⟨hs, h0, hT⟩, rfl⟩

/-- What a pass does with one loaded record. -/
def handOne (env : Env) (q : Queue) : Option JobModel → Py Unit
  | none => pure ()
  | some job => do
      let _ ← q.enqueueJob env job (job.atFront.getD false)

section Round

variable {env : Env} {q : Queue} {n : JobName} {o d : Option Int} {k : Nat}

theorem run_enqueueFrom (hq : env.queues q.name = some q.isAsync) (w : World) :
    (WorkerScheduler.enqueueFrom env q.name).run w
      = if (takenNames q (currentTimestamp w.now) w).isEmpty then ⟨.ok (), w, []⟩
        else match JobModel.deserializeAll env ((takenNames q (currentTimestamp w.now) w).map
            fun n => (n, w.jobs.find? n)) with
          | .ok js => (Prog.forEach js (handOne env q)).run w
          | .error x => ⟨.error x, w, []⟩ := by
  have hget : getQueue env q.name = pure q := by
    unfold getQueue
    rw [hq]
  have hnames : ((Registry.mk q.name .scheduled).getJobsToSchedule (currentTimestamp w.now)).run w
      = ⟨.ok (takenNames q (currentTimestamp w.now) w), w, []⟩ := rfl
  simp only [WorkerScheduler.enqueueFrom, Prog.run_bind, run_readTimestamp,
    Prog.Outcome.andThen_ok, hnames, List.nil_append]
  cases hempty : (takenNames q (currentTimestamp w.now) w).isEmpty with
  | true => simp
  | false =>
      simp only [Bool.false_eq_true, if_false, hget, Prog.run_bind, Prog.pure_eq, Prog.run_ret,
        Prog.Outcome.andThen_ok, JobModel.run_getMany, List.nil_append]
      cases JobModel.deserializeAll env ((takenNames q (currentTimestamp w.now) w).map
        fun n => (n, w.jobs.find? n)) with
      | error x => rfl
      | ok js => rfl

/-- Of names without repetition each is loaded once. -/
theorem deserializeAll_split {w : World} {names : List JobName} (hnd : names.Nodup)
    {js : List (Option JobModel)}
    (h : JobModel.deserializeAll env (names.map fun n => (n, w.jobs.find? n)) = .ok js)
    (hn : n ∈ names) {j : JobModel} (hj : JobModel.fetch env w n = some j) :
    ∃ a b, js = a ++ some j :: b ∧ ∀ j', some j' ∈ a ++ b → j'.name ≠ n := by
  induction names generalizing js with
  | nil => cases hn
  | cons m l ih =>
      rw [List.nodup_cons] at hnd
      obtain ⟨v, hv, hd⟩ := Option.bind_eq_some_iff.1 hj
      simp only [List.map_cons, JobModel.deserializeAll] at h
      by_cases hmn : n = m
      · -- the first name: none of the others is the same
        subst hmn
        simp only [hv, hd] at h
        obtain ⟨js', hjs', rfl⟩ := JobModel.map_cons_eq_ok h
        refine ⟨[], js', rfl, fun j' hj' heq => ?_⟩
        have hrun : ((JobModel.getMany env l).run w).val = .ok js' := by
          rw [JobModel.run_getMany]
          exact hjs'
        exact hnd.1 (heq ▸ (JobModel.getMany_mem hrun hj').1)
      · have hl : n ∈ l := (List.mem_cons.1 hn).resolve_left hmn
        cases hm : w.jobs.find? m with
        | none =>
            simp only [hm] at h
            obtain ⟨js', hjs', rfl⟩ := JobModel.map_cons_eq_ok h
            obtain ⟨a, b, rfl, hab⟩ := ih hnd.2 hjs' hl
            refine ⟨none :: a, b, rfl, fun j' hj' => hab j' ?_⟩
            simpa using hj'
        | some v' =>
            cases hd' : JobModel.deserialize env.config m v' with
            | none => simp [hm, hd'] at h
            | some j1 =>
                simp only [hm, hd'] at h
                obtain ⟨js', hjs', rfl⟩ := JobModel.map_cons_eq_ok h
                obtain ⟨a, b, rfl, hab⟩ := ih hnd.2 hjs' hl
                have hname : j1.name = m := (JobModel.loadedFrom_of_deserialize hd').name
                refine ⟨some j1 :: a, b, rfl, fun j' hj' => ?_⟩
                rcases List.mem_cons.1 hj' with heq | hj'
                · cases heq
                  exact hname ▸ Ne.symm hmn
                · exact hab j' hj'

/-- Handing jobs over that may be enqueued keeps the invariant. -/
theorem hands_inv {may : QueueName → JobName → Prop} {I : Config World Event → Prop}
    (h : SparedJobs env may I) (hq : env.queues q.name = some q.isAsync)
    {js : List (Option JobModel)} (hjs : ∀ j, some j ∈ js → may q.name j.name) :
    (Prog.forEach js (handOne env q)).Inv I fun _ => True := by
  refine Prog.Inv.forEach fun job hjob => ?_
  cases job with
  | none => exact Prog.Inv.ret trivial
  | some j =>
      refine Prog.Inv.bind (Q := fun _ => True) ?_ fun _ _ => Prog.Inv.ret trivial
      exact h.enqueueJob_inv hq (hjs j hjob) _

/-- A round that takes only jobs that may be enqueued keeps the invariant. -/
theorem round_after {may : QueueName → JobName → Prop} {I : Config World Event → Prop}
    (h : SparedJobs env may I) (hq : env.queues q.name = some q.isAsync) {c : Config World Event}
    (hc : I c) (hmay : ∀ m ∈ takenNames q (currentTimestamp c.1.now) c.1, may q.name m) :
    I ((WorkerScheduler.enqueueFrom env q.name).after c) := by
  have hrun := run_enqueueFrom hq c.1
  split at hrun
  · rw [Prog.after_of_run hrun, List.append_nil]
    exact hc
  · cases hjs : JobModel.deserializeAll env ((takenNames q (currentTimestamp c.1.now) c.1).map
        fun n => (n, c.1.jobs.find? n)) with
    | error x =>
        rw [hjs] at hrun
        rw [Prog.after_of_run hrun, List.append_nil]
        exact hc
    | ok js =>
        rw [hjs] at hrun
        have hall : ∀ j, some j ∈ js → may q.name j.name := by
          intro j hj
          have hget : ((JobModel.getMany env (takenNames q (currentTimestamp c.1.now)
              c.1)).run c.1).val = .ok js := by
            rw [JobModel.run_getMany]
            exact hjs
          exact hmay _ (JobModel.getMany_mem hget hj).1
        have hend := ((hands_inv h hq hall).ends hc).1
        unfold Prog.after Prog.exec at hend ⊢
        rw [hrun]
        exact hend

/-- Handing other jobs over spares the entry. -/
theorem handOne_inv (hq : env.queues q.name = some q.isAsync) (hU : UserSpares env q n)
    {js : List (Option JobModel)} (hjs : ∀ j, some j ∈ js → j.name ≠ n) :
    (Prog.forEach js (handOne env q)).Inv (Entry env q n o d k) fun _ => True :=
  hands_inv (spared_entry hU).jobs hq fun j hj => Or.inl (hjs j hj)

/-- The round spares an entry that it does not take. -/
theorem Entry.round_other (hq : env.queues q.name = some q.isAsync) (hU : UserSpares env q n)
    {c : Config World Event} (h : Entry env q n o d k c)
    (hn : n ∉ takenNames q (currentTimestamp c.1.now) c.1) :
    Entry env q n o d k ((WorkerScheduler.enqueueFrom env q.name).after c) := by
  refine round_after (spared_entry hU).jobs hq h fun m hm => Or.inl fun heq => ?_
  subst heq
  exact hn hm

/-- Handing the job itself over, on a queue with workers. -/
theorem Entry.handed {s : Int} (ha : q.isAsync = true) {j : JobModel} (hj : j.name = n)
    (hser : j.serializable = true) {c : Config World Event}
    (h : Entry env q n (some s) d k c) :
    Entry env q n none d (k + 1) ((handOne env q (some j)).after c) := by
  subst hj
  have hrun : (handOne env q (some j)).run c.1 = ⟨.ok (),
      q.enqueuedWorld j (j.atFront.getD false) c.1, [.enqueued q.name j.name]⟩ := by
    simp [handOne, Prog.run_bind, Queue.run_enqueueJob env ha hser]
  rw [Prog.after_of_run hrun]
  have hsaved := h.saveJob (Queue.enqueuedModel j c.1.now) false
  refine ⟨?_, hsaved.loads, hsaved.deadline, fun q' hne hsync => ?_, ?_⟩
  · rw [Queue.enqueuedWorld, World.score_zadd, if_neg (by simp), World.score_zrem,
      if_pos ⟨rfl, rfl, rfl⟩]
  · rw [Queue.enqueuedWorld, World.inRegistry_zadd]
    rintro (⟨-, hk, -⟩ | hin)
    · cases hk
    · exact hsaved.own q' hne hsync ((World.inRegistry_zrem ..).1 hin).2
  · have hev : handover q j.name = .enqueued q.name j.name := by simp [handover, ha]
    rw [List.count_append, h.count, hev, List.count_singleton_self]

/-- The round of a queue with workers hands a due entry over, once, and returns. -/
theorem Entry.round_due {s : Int} (hq : env.queues q.name = some q.isAsync)
    (ha : q.isAsync = true) (hU : UserSpares env q n) {c : Config World Event}
    (h : Entry env q n (some s) d k c) (hrec : Recorded env q c.1)
    (hn : n ∈ takenNames q (currentTimestamp c.1.now) c.1) :
    Entry env q n none d (k + 1) ((WorkerScheduler.enqueueFrom env q.name).after c) ∧
      ((WorkerScheduler.enqueueFrom env q.name).run c.1).val = .ok () := by
  have hload : ∀ m ∈ takenNames q (currentTimestamp c.1.now) c.1, ∃ j,
      JobModel.fetch env c.1 m = some j ∧ j.serializable = true := by
    intro m hm
    obtain ⟨s', hs', -⟩ := mem_takenNames hm
    exact hrec m (by rw [World.inRegistry_iff, hs']; rfl)
  have hfetch : ∀ m ∈ takenNames q (currentTimestamp c.1.now) c.1, ∃ j,
      JobModel.fetch env c.1 m = some j := fun m hm => (hload m hm).imp fun _ => And.left
  obtain ⟨js, hjs⟩ := JobModel.deserializeAll_ok fun m hm => Or.inr (hfetch m hm)
  obtain ⟨j, hj, hser⟩ := hload n hn
  obtain ⟨a, b, rfl, hab⟩ := deserializeAll_split (takenNames_nodup ..) hjs hn hj
  have hrun := run_enqueueFrom hq c.1
  rw [if_neg (by simpa using List.ne_nil_of_mem hn), hjs] at hrun
  dsimp only at hrun
  -- every job that was loaded can be saved, so no round raises
  have hok : ∀ x ∈ a ++ some j :: b, ∀ w, ((handOne env q x).run w).val = .ok () := by
    intro x hx w
    cases x with
    | none => rfl
    | some j' =>
        have hget : ((JobModel.getMany env (takenNames q (currentTimestamp c.1.now)
            c.1)).run c.1).val = .ok (a ++ some j :: b) := by
          rw [JobModel.run_getMany]
          exact hjs
        obtain ⟨hname, hfetch⟩ := JobModel.getMany_mem hget hx
        obtain ⟨j'', hj'', hser''⟩ := hload j'.name hname
        rw [hfetch] at hj''
        cases hj''
        simp [handOne, Prog.run_bind, Queue.run_enqueueJob env ha hser'']
  have hafter : (WorkerScheduler.enqueueFrom env q.name).after c
      = (Prog.forEach (a ++ some j :: b) (handOne env q)).after c := by
    simp only [Prog.after, Prog.exec, hrun]
  have hval : ((WorkerScheduler.enqueueFrom env q.name).run c.1).val = .ok () := by
    rw [hrun]
    exact Prog.forEach_returns hok c.1
  refine ⟨?_, hval⟩
  have hsplit : Prog.forEach (a ++ some j :: b) (handOne env q)
      = Prog.forEach a (handOne env q) >>= fun _ =>
        handOne env q (some j) >>= fun _ => Prog.forEach b (handOne env q) :=
    Prog.forEach_append a (some j :: b) (handOne env q)
  have hvala : ((Prog.forEach a (handOne env q)).run c.1).val = .ok () :=
    Prog.forEach_returns (fun x hx => hok x (List.mem_append_left _ hx)) c.1
  rw [hafter, hsplit, Prog.after_bind hvala,
    Prog.after_bind (hok (some j) (by simp) _)]
  have hbefore := ((handOne_inv (o := some s) (d := d) (k := k) hq hU fun j' hj' =>
    hab j' (List.mem_append_left _ hj')).ends h).1
  have hhanded := hbefore.handed ha (JobModel.name_of_fetch hj) hser
  exact ((handOne_inv hq hU fun j' hj' => hab j' (List.mem_append_right _ hj')).ends hhanded).1

end Round

/-! ## A pass -/

/-- The part of a pass before it comes to the queue. -/
def before (env : Env) (s : WorkerScheduler) (q : Queue) : Py Unit := do
  rescheduleTasks env
  Prog.forEach (s.registries.takeWhile (· ≠ q.name)) fun q' => WorkerScheduler.enqueueFrom env q'

/-- The queues a pass comes to after the queue. -/
def queuesAfter (s : WorkerScheduler) (q : Queue) : List QueueName :=
  (s.registries.dropWhile (· ≠ q.name)).tail

/-- The world in which a pass reads the scheduled registry of the queue. -/
def atQueue (env : Env) (s : WorkerScheduler) (q : Queue) (w : World) : World :=
  (before env s q).exec w

/-- The time at which a pass looks for due jobs of the queue. -/
def timestampAt (env : Env) (s : WorkerScheduler) (q : Queue) (w : World) : Int :=
  currentTimestamp (atQueue env s q w).now

/-- The scheduler looks after the queue, its pass comes to the queue, and finds a registry whose names
all have records and at most 1000 due entries. -/
structure Reaches (env : Env) (s : WorkerScheduler) (q : Queue) (w : World) : Prop where
  looksAfter : q.name ∈ s.registries
  nodup : s.registries.Nodup
  returns : ((before env s q).run w).val = .ok ()
  recorded : Recorded env q (atQueue env s q w)
  few : (dueEntries q (timestampAt env s q w) (atQueue env s q w)).length ≤ 1000

section Pass

variable {env : Env} {s : WorkerScheduler} {q : Queue}

theorem registries_split (h : q.name ∈ s.registries) :
    s.registries = s.registries.takeWhile (· ≠ q.name) ++ q.name :: queuesAfter s q := by
  have hdrop : s.registries.dropWhile (· ≠ q.name) = q.name :: queuesAfter s q := by
    unfold queuesAfter
    cases hd : s.registries.dropWhile (· ≠ q.name) with
    | nil =>
        have hall := List.dropWhile_eq_nil_iff.1 hd q.name h
        simp at hall
    | cons q' l =>
        have hq' := List.head_dropWhile_not (· ≠ q.name) (l := s.registries) (by rw [hd]; simp)
        simp only [hd, List.head_cons, decide_eq_false_iff_not, not_not] at hq'
        rw [List.tail_cons, hq']
  conv_lhs => rw [← List.takeWhile_append_dropWhile (p := (· ≠ q.name)) (l := s.registries)]
  rw [hdrop]

/-- A pass: up to the queue, the round of the queue, and the rest. -/
theorem enqueueScheduledJobs_split (h : q.name ∈ s.registries) :
    s.enqueueScheduledJobs env = before env s q >>= fun _ =>
      WorkerScheduler.enqueueFrom env q.name >>= fun _ =>
      Prog.forEach (queuesAfter s q) (fun q' => WorkerScheduler.enqueueFrom env q') >>= fun _ =>
      pure { s with status := .started } := by
  have hloop : (Prog.forEach s.registries fun q' => WorkerScheduler.enqueueFrom env q')
      = Prog.forEach (s.registries.takeWhile (· ≠ q.name))
          (fun q' => WorkerScheduler.enqueueFrom env q') >>= fun _ =>
        WorkerScheduler.enqueueFrom env q.name >>= fun _ =>
        Prog.forEach (queuesAfter s q) fun q' => WorkerScheduler.enqueueFrom env q' := by
    conv_lhs => rw [registries_split h, Prog.forEach_append]
    rfl
  unfold WorkerScheduler.enqueueScheduledJobs before
  rw [hloop]
  simp only [Prog.bind_assoc]

/-- A queue that comes before or after is another one. -/
theorem ne_of_mem_takeWhile {q' : QueueName}
    (h : q' ∈ s.registries.takeWhile (· ≠ q.name)) : q' ≠ q.name := by
  simpa using List.mem_takeWhile_imp h

theorem ne_of_mem_queuesAfter (h : q.name ∈ s.registries) (hnd : s.registries.Nodup)
    {q' : QueueName} (h' : q' ∈ queuesAfter s q) : q' ≠ q.name := by
  rw [registries_split h] at hnd
  have htail := (List.nodup_append.1 hnd).2.1
  rw [List.nodup_cons] at htail
  rintro rfl
  exact htail.1 h'

variable {n : JobName} {o d : Option Int} {k : Nat}

/-- The rounds of other queues spare the entry. -/
theorem others_inv (hU : UserSpares env q n) {l : List QueueName} (hl : ∀ q' ∈ l, q' ≠ q.name) :
    (Prog.forEach l fun q' => WorkerScheduler.enqueueFrom env q').Inv (Entry env q n o d k)
      fun _ => True := by
  refine Prog.Inv.forEach fun q' hq' => (spared_entry hU).jobs.enqueueFrom_inv ?_
  intro w t m isAsync hconf h hin
  have hne := hl q' hq'
  by_cases hm : m = n
  · subst hm
    -- the job may be scheduled elsewhere, but not in a queue that runs it at once
    cases isAsync with
    | true => exact Or.inr ⟨hconf, hne⟩
    | false => exact absurd hin (h.own q' hne hconf)
  · exact Or.inl hm

theorem before_inv (hU : UserSpares env q n) :
    (before env s q).Inv (Entry env q n o d k) fun _ => True :=
  (spared_entry hU).rescheduleTasks_inv.bind fun _ _ =>
    others_inv hU fun _ hq' => ne_of_mem_takeWhile hq'

theorem rest_inv (hU : UserSpares env q n) (hs : q.name ∈ s.registries)
    (hnd : s.registries.Nodup) :
    (Prog.forEach (queuesAfter s q) (fun q' => WorkerScheduler.enqueueFrom env q') >>= fun _ =>
      (pure { s with status := .started } : Py WorkerScheduler)).Inv (Entry env q n o d k)
      fun _ => True :=
  (others_inv hU fun _ hq' => ne_of_mem_queuesAfter hs hnd hq').bind fun _ _ =>
    Prog.Inv.ret trivial

/-- A pass spares an entry that is not due when it comes to the queue. -/
theorem Entry.pass_other (hq : env.queues q.name = some q.isAsync) (hU : UserSpares env q n)
    {c : Config World Event} (hs : Reaches env s q c.1) (h : Entry env q n o d k c)
    (ho : ∀ sc, o = some sc → sc < 0 ∨ timestampAt env s q c.1 < sc) :
    Entry env q n o d k ((s.enqueueScheduledJobs env).after c) := by
  have h1 := ((before_inv (s := s) hU).ends h).1
  have hn : n ∉ takenNames q (timestampAt env s q c.1) (atQueue env s q c.1) := by
    intro hin
    obtain ⟨sc, hsc, h0, hT⟩ := mem_takenNames hin
    have heq : o = some sc := h1.score.symm.trans hsc
    rcases ho sc heq with hlt | hlt <;> omega
  have h2 := h1.round_other hq hU hn
  rw [enqueueScheduledJobs_split hs.looksAfter, Prog.after_bind hs.returns]
  cases hv : ((WorkerScheduler.enqueueFrom env q.name).run ((before env s q).after c).1).val with
  | ok u =>
      rw [Prog.after_bind hv]
      exact ((rest_inv hU hs.looksAfter hs.nodup).ends h2).1
  | error x =>
      rw [Prog.after_bind_error hv]
      exact h2

/-- A pass over a queue with workers hands a due entry over once. -/
theorem Entry.pass_due (hq : env.queues q.name = some q.isAsync) (ha : q.isAsync = true)
    (hU : UserSpares env q n) {c : Config World Event} (hs : Reaches env s q c.1) {sc : Int}
    (h : Entry env q n (some sc) d k c) (h0 : 0 ≤ sc) (hT : sc ≤ timestampAt env s q c.1) :
    Entry env q n none d (k + 1) ((s.enqueueScheduledJobs env).after c) := by
  have h1 := ((before_inv (s := s) hU).ends h).1
  have hn := mem_takenNames_of_due hs.few h1.score h0 hT
  obtain ⟨h2, hv⟩ := h1.round_due hq ha hU hs.recorded hn
  rw [enqueueScheduledJobs_split hs.looksAfter, Prog.after_bind hs.returns, Prog.after_bind hv]
  exact ((rest_inv hU hs.looksAfter hs.nodup).ends h2).1

/-- A pass never takes a name out of the scheduled registry of a queue without workers. -/
theorem Waiting.pass (hq : env.queues q.name = some false) (hU : UserSpares env q n)
    {c : Config World Event} (h : Waiting q n c) :
    Waiting q n ((s.enqueueScheduledJobs env).after c) := by
  have hsp := spared_waiting hq hU
  have hinv : (s.enqueueScheduledJobs env).Inv (Waiting q n) fun _ => True := by
    refine hsp.rescheduleTasks_inv.bind fun _ _ => ?_
    refine Prog.Inv.bind (Q := fun _ => True) ?_ fun _ _ => Prog.Inv.ret trivial
    exact Prog.Inv.forEach fun q' _ => hsp.jobs.enqueueFrom_inv fun _ _ _ _ _ _ _ => trivial
  exact (hinv.ends h).1

end Pass

/-! ## One pass and many -/

/-- No entry of the queue is scheduled in another queue that runs its jobs at once, and all have
records. -/
def Owned (env : Env) (q : Queue) (w : World) : Prop :=
  ∀ n, w.inRegistry q.name .scheduled n → w.loadable n ∧
    ∀ q', q' ≠ q.name → env.queues q' = some false → ¬ w.inRegistry q' .scheduled n

/-- One pass hands each due job over exactly once and takes it out of the scheduled registry, and
leaves every other entry as it was. -/
def HandsOver (env : Env) (s : WorkerScheduler) (q : Queue) (w : World) : Prop :=
  ∀ n sc, (w.registry q.name .scheduled).score n = some sc →
    if sc ≤ timestampAt env s q w then
      ((s.enqueueScheduledJobs env).run w).trace.count (handover q n) = 1 ∧
        ¬ ((s.enqueueScheduledJobs env).exec w).inRegistry q.name .scheduled n
    else
      ((s.enqueueScheduledJobs env).run w).trace.count (handover q n) = 0 ∧
        (((s.enqueueScheduledJobs env).exec w).registry q.name .scheduled).score n = some sc

/-- No due job is scheduled before 1970, and the queue has workers unless nothing is due. -/
def Sound (env : Env) (s : WorkerScheduler) (q : Queue) (w : World) : Prop :=
  (∀ n sc, (w.registry q.name .scheduled).score n = some sc →
    sc ≤ timestampAt env s q w → 0 ≤ sc) ∧
  (q.isAsync = true ∨ ∀ n sc, (w.registry q.name .scheduled).score n = some sc →
    timestampAt env s q w < sc)

/-- What happens over time: the clock moves on, or a scheduler makes a pass. -/
inductive PassOp where
  | tick (d : Nat)
  | pass (s : WorkerScheduler)

/-- The world and the events so far after an operation. -/
def PassOp.step (env : Env) (c : Config World Event) : PassOp → Config World Event
  | .tick d => (c.1.advance d, c.2)
  | .pass s => (s.enqueueScheduledJobs env).after c

/-- Every pass comes to the queue. -/
def PassOp.Reaches (env : Env) (q : Queue) (c : Config World Event) : PassOp → Prop
  | .tick _ => True
  | .pass s => Handover.Reaches env s q c.1

/-- Some pass of the run comes to the queue at the time `sc` or later. -/
def DueIn (env : Env) (q : Queue) (sc : Int) : Config World Event → List PassOp → Prop
  | _, [] => False
  | c, .tick d :: l => DueIn env q sc (PassOp.step env c (.tick d)) l
  | c, .pass s :: l => sc ≤ timestampAt env s q c.1 ∨ DueIn env q sc (PassOp.step env c (.pass s)) l

section Passes

variable {env : Env} {q : Queue}

theorem Owned.entry {w : World} (h : Owned env q w) {n : JobName} {sc : Int}
    (hn : (w.registry q.name .scheduled).score n = some sc) :
    Entry env q n (some sc) (w.jobs.deadline n) 0 (w, []) := by
  obtain ⟨hload, hown⟩ := h n (by rw [World.inRegistry_iff, hn]; rfl)
  exact ⟨hn, hload, rfl, hown, rfl⟩

theorem hands_over_iff (hq : env.queues q.name = some q.isAsync)
    (hU : ∀ n, UserSpares env q n) {s : WorkerScheduler} {w : World} (hs : Reaches env s q w)
    (how : Owned env q w) : HandsOver env s q w ↔ Sound env s q w := by
  constructor
  · intro h
    refine ⟨fun n sc hn hT => ?_, ?_⟩
    · -- a due entry with a negative score is never found
      by_contra hneg
      have hend := (how.entry hn).pass_other hq (hU n) hs fun sc' hsc' => by
        cases hsc'
        exact Or.inl (by omega)
      have hout := h n sc hn
      rw [if_pos hT] at hout
      exact hout.2 (by rw [World.inRegistry_iff]; exact hend.score ▸ rfl)
    · cases ha : q.isAsync with
      | true => exact Or.inl rfl
      | false =>
          refine Or.inr fun n sc hn => ?_
          by_contra hT
          have hwait : Waiting q n (w, []) := by
            show w.inRegistry q.name .scheduled n
            rw [World.inRegistry_iff, hn]
            rfl
          have hend := hwait.pass (s := s) (by rw [hq, ha]) (hU n)
          have hout := h n sc hn
          rw [if_pos (by omega)] at hout
          exact hout.2 hend
  · rintro ⟨h0, hasync⟩ n sc hn
    split
    · rename_i hT
      have ha : q.isAsync = true := hasync.resolve_right fun hnone => by
        have hlt := hnone n sc hn
        omega
      have hend := (how.entry hn).pass_due hq ha (hU n) hs (h0 n sc hn hT) hT
      refine ⟨by simpa [Prog.after] using hend.count, ?_⟩
      rw [World.inRegistry_iff]
      show ¬ ((((s.enqueueScheduledJobs env).after (w, [])).1.registry q.name
        .scheduled).score n).isSome = true
      rw [hend.score]
      simp
    · rename_i hT
      have hlate : timestampAt env s q w < sc := by omega
      have hend := (how.entry hn).pass_other hq (hU n) hs fun sc' hsc' => by
        cases hsc'
        exact Or.inr hlate
      exact ⟨by simpa [Prog.after] using hend.count, hend.score⟩

theorem Entry.tick {n : JobName} {o : Option Int} {k : Nat} {c : Config World Event}
    (h : Entry env q n o none k c) (d : Nat) :
    Entry env q n o none k (PassOp.step env c (.tick d)) := by
  obtain ⟨v, hv, hc⟩ := h.loads
  refine ⟨h.score, ⟨v, ?_, hc⟩, ?_, h.own, h.count⟩
  · rw [← hv]
    exact TtlMap.find?_purge_of_deadline_none _ _ h.deadline
  · simp [PassOp.step, World.advance, TtlMap.deadline_purge, h.deadline]

/-- An entry that was handed over stays so. -/
theorem Entry.handed_run (hq : env.queues q.name = some q.isAsync) {n : JobName}
    (hU : UserSpares env q n) {k : Nat} {c : Config World Event} {l : List PassOp}
    (h : Entry env q n none none k c) (hl : Run.Meets (PassOp.step env) (PassOp.Reaches env q) c l) :
    Entry env q n none none k (Run.last (PassOp.step env) c l) := by
  refine (Run.along_of_step (P := Entry env q n none none k) (fun c op h hop => ?_) h hl).last
  cases op with
  | tick d => exact h.tick d
  | pass s => exact h.pass_other hq hU hop fun sc hsc => by cases hsc

/-- An entry on a queue with workers, over a run of passes. -/
theorem Entry.run (hq : env.queues q.name = some q.isAsync) (ha : q.isAsync = true) {n : JobName}
    (hU : UserSpares env q n) {sc : Int} (h0 : 0 ≤ sc) {c : Config World Event}
    {l : List PassOp} (h : Entry env q n (some sc) none 0 c)
    (hl : Run.Meets (PassOp.step env) (PassOp.Reaches env q) c l) :
    (DueIn env q sc c l → Entry env q n none none 1 (Run.last (PassOp.step env) c l)) ∧
    (¬ DueIn env q sc c l → Entry env q n (some sc) none 0 (Run.last (PassOp.step env) c l)) := by
  induction l generalizing c with
  | nil => exact ⟨fun hd => hd.elim, fun _ => h⟩
  | cons op l ih =>
      obtain ⟨hop, hl⟩ := hl
      cases op with
      | tick d => exact ih (h.tick d) hl
      | pass s =>
          by_cases hT : sc ≤ timestampAt env s q c.1
          · have hdue := h.pass_due hq ha hU hop h0 hT
            exact ⟨fun _ => hdue.handed_run hq hU hl, fun hnot => absurd (Or.inl hT) hnot⟩
          · have hstay := h.pass_other hq hU hop fun sc' hsc' => by
              cases hsc'
              exact Or.inr (by omega)
            obtain ⟨hyes, hno⟩ := ih hstay hl
            exact ⟨fun hd => hyes (hd.resolve_left hT), fun hd => hno fun h' => hd (Or.inr h')⟩

/-- **Scheduled jobs are handed over exactly once.** A pass that comes to the queue hands each of its
due jobs over once, takes it out of the scheduled registry and leaves the other entries as they
were, exactly when no due job is scheduled before 1970 and the queue has workers or nothing is
due. On a queue with workers, over any passes and any passage of time an entry is handed over
once if some pass came when it was due, and else stays as it was. -/
theorem handed_over_exactly_once (hq : env.queues q.name = some q.isAsync)
    (hU : ∀ n, UserSpares env q n) :
    (∀ s w, Reaches env s q w → Owned env q w → (HandsOver env s q w ↔ Sound env s q w)) ∧
    (q.isAsync = true → ∀ w, Owned env q w → ∀ n sc,
      (w.registry q.name .scheduled).score n = some sc → 0 ≤ sc → w.jobs.deadline n = none →
      ∀ l, Run.Meets (PassOp.step env) (PassOp.Reaches env q) (w, []) l →
        (DueIn env q sc (w, []) l →
          (Run.last (PassOp.step env) (w, []) l).2.count (handover q n) = 1 ∧
          ¬ (Run.last (PassOp.step env) (w, []) l).1.inRegistry q.name .scheduled n) ∧
        (¬ DueIn env q sc (w, []) l →
          (Run.last (PassOp.step env) (w, []) l).2.count (handover q n) = 0 ∧
          ((Run.last (PassOp.step env) (w, []) l).1.registry q.name .scheduled).score n
            = some sc)) := by
  refine ⟨fun s w hs how => hands_over_iff hq hU hs how, ?_⟩
  intro ha w how n sc hn h0 hd l hl
  have hentry := how.entry hn
  rw [hd] at hentry
  obtain ⟨hyes, hno⟩ := hentry.run hq ha (hU n) h0 hl
  refine ⟨fun hdue => ⟨(hyes hdue).count, ?_⟩, fun hdue => ⟨(hno hdue).count, (hno hdue).score⟩⟩
  rw [World.inRegistry_iff, (hyes hdue).score]
  simp

end Passes

/-- A scheduler of both queues of the sample. -/
def sampleScheduler : WorkerScheduler :=
  { WorkerScheduler.new ["q", "s"] 1 10 with locks := ["q", "s"], registries := ["q", "s"] }

/-- The job `a` of a queue was scheduled for the fifth second, and ten seconds have passed. -/
def sampleWorld (q : Queue) : World :=
  ((q.createAndEnqueueJob Sample.env { Sample.args "ok" with name := some "a" }
    (.datetime (.aware 5000000)) false).exec (World.init 0)).advance 10000000

theorem sample_reaches {q : Queue} (hq : q = Sample.queue ∨ q = Sample.syncQueue) :
    Reaches Sample.env sampleScheduler q (sampleWorld q) := by
  rcases hq with rfl | rfl
  all_goals
    refine ⟨by decide, by decide, by decide, ?_, by decide⟩
    refine World.forall_of_members (n := "a") (by decide) ?_
    exact ⟨_, Option.eq_some_of_isSome (by decide), by decide⟩

theorem sample_owned {q : Queue} (hq : q = Sample.queue ∨ q = Sample.syncQueue) :
    Owned Sample.env q (sampleWorld q) := by
  have hsync : ∀ q', Sample.env.queues q' = some false → q' = "s" := by
    intro q' h
    simp only [Sample.env] at h
    split at h
    · cases h
    · split at h
      · assumption
      · cases h
  rcases hq with rfl | rfl
  all_goals
    refine World.forall_of_members (n := "a") (by decide) ⟨⟨_, Option.eq_some_of_isSome ?_, ?_⟩, ?_⟩
    · decide
    · decide
    · intro q' hne hq'
      have hname := hsync q' hq'
      subst hname
      first | exact absurd rfl hne | decide

theorem sample_spares (q : Queue) (n : JobName) : UserSpares Sample.env q n :=
  ⟨fun _ _ _ => Sample.userKeeps _, Sample.userKeeps _⟩

/-- The job of the queue with workers is handed over by one pass, and by two passes a minute
apart still once. -/
theorem sample_handed_over :
    HandsOver Sample.env sampleScheduler Sample.queue (sampleWorld Sample.queue) ∧
      (Run.last (PassOp.step Sample.env) (sampleWorld Sample.queue, [])
        [.pass sampleScheduler]).2.count (handover Sample.queue "a") = 1 := by
  have h := @handed_over_exactly_once Sample.env Sample.queue rfl
    (sample_spares Sample.queue)
  have hown := sample_owned (q := Sample.queue) (Or.inl rfl)
  have hreach := sample_reaches (q := Sample.queue) (Or.inl rfl)
  have hentries : ((sampleWorld Sample.queue).registry "q" .scheduled).entries
      = [(5000000, "a")] := by decide
  constructor
  · refine (h.1 sampleScheduler _ hreach hown).2 ⟨fun n sc hn _ => ?_, Or.inl rfl⟩
    have hmem := (SortedSet.score_eq_some_iff _ _ _).1 hn
    rw [show Sample.queue.name = "q" from rfl, hentries, List.mem_singleton] at hmem
    cases hmem
    decide
  · have hdue : DueIn Sample.env Sample.queue 5000000 (sampleWorld Sample.queue, [])
        [.pass sampleScheduler] := Or.inl (by decide)
    have hmeets : Run.Meets (PassOp.step Sample.env) (PassOp.Reaches Sample.env Sample.queue)
        (sampleWorld Sample.queue, []) [.pass sampleScheduler] := ⟨hreach, trivial⟩
    exact ((h.2 rfl _ hown "a" 5000000 (by decide) (by decide) (by decide) _ hmeets).1 hdue).1

/-- The job of the queue without workers is run by each of two passes. -/
theorem sync_handed_over_twice :
    ¬ HandsOver Sample.env sampleScheduler Sample.syncQueue (sampleWorld Sample.syncQueue) ∧
      (Run.last (PassOp.step Sample.env) (sampleWorld Sample.syncQueue, [])
        [.pass sampleScheduler, .pass sampleScheduler]).2.count (handover Sample.syncQueue "a")
        = 2 := by
  refine ⟨fun h => ?_, by decide +kernel⟩
  have hout := h "a" 5000000 (by decide)
  rw [if_pos (by decide)] at hout
  exact hout.2 (by decide)

end DailyScheduler.Handover
