import DailyScheduler.Queues.Order

set_option autoImplicit false

/-! # Enqueuing at the front

`enqueue_job` with `at_front` scores the job with the clock. `dequeue_any` takes the smallest score
first, so the job passes the waiting ones only as far as their scores are in the future, or equal
to its own with a larger name.
-/

namespace DailyScheduler.Front

open AtomicProg

/-- The entry `a` is popped before the entry `b` of another name. -/
def Earlier (a b : Int × JobName) : Prop := a.1 < b.1 ∨ (a.1 = b.1 ∧ a.2 < b.2)

theorem not_earlier_of_before {a b : Int × JobName} (h : SortedSet.before a b) :
    ¬ Earlier b a := by
  rintro (h' | h')
  · rcases h with h | h
    · exact lt_asymm h h'
    · exact absurd (h.1 ▸ h') (lt_irrefl _)
  · rcases h with h | h
    · exact absurd (h'.1 ▸ h) (lt_irrefl _)
    · exact absurd (lt_of_lt_of_le h'.2 h.2) (lt_irrefl _)

/-- Neither of the two jobs is enqueued again, and the job `j` keeps its record as long as it
waits. -/
def Untouched (j n : JobName) (s : Served) (op : QueueOp) : Prop :=
  (j ∈ s.returned ∨ s.world.loadable j) ∧
    ∀ job atFront, op = .enqueue job atFront → job.name ≠ j ∧ job.name ≠ n

/-- The world after the job was enqueued at the front. -/
def enqueuedFront (env : Env) (q : Queue) (job : JobModel) (w : World) : World :=
  (q.enqueueJob env job true).exec w

/-- Whatever happens on the queue, the job is returned before every other job that was queued with
its record when it was enqueued. -/
def TakesPriority (env : Env) (q : Queue) (job : JobModel) (w : World) : Prop :=
  ∀ n, n ≠ job.name → w.inRegistry q.name .queued n → w.loadable n →
    ∀ l, Run.Meets (QueueOp.step env q) (Untouched job.name n)
        ⟨enqueuedFront env q job w, [], []⟩ l →
      Run.Along (QueueOp.step env q) (fun s => n ∈ s.returned → job.name ∈ s.returned)
        ⟨enqueuedFront env q job w, [], []⟩ l

/-- Every other job of the queue that has its record is scored after now, or now with a larger
name. -/
def ScoredLater (q : Queue) (job : JobModel) (w : World) : Prop :=
  ∀ n s, n ≠ job.name → (w.registry q.name .queued).score n = some s → w.loadable n →
    Earlier (currentTimestamp w.now, job.name) (s, n)

section Ahead

variable {env : Env} {q : Queue} {j n : JobName}

/-- The job `j` waits, and `n` does not come before it. -/
structure Ahead (q : Queue) (j n : JobName) (w : World) : Prop where
  ne : n ≠ j
  score : ∃ T, (w.registry q.name .queued).score j = some T ∧
    ∀ s, (w.registry q.name .queued).score n = some s → Earlier (T, j) (s, n)

theorem Ahead.of_frame {w w' : World} (h : Ahead q j n w)
    (hj : (w'.registry q.name .queued).score j = (w.registry q.name .queued).score j)
    (hn : ∀ s, (w'.registry q.name .queued).score n = some s →
      (w.registry q.name .queued).score n = some s) : Ahead q j n w' where
  ne := h.ne
  score := by
    obtain ⟨T, hT, hlater⟩ := h.score
    exact ⟨T, hj.trans hT, fun s hs => hlater s (hn s hs)⟩

theorem score_compacted (q : QueueName) (w : World) (m : JobName) :
    ((compacted q w).registry q .queued).score m
      = ((w.registry q .queued).score m).filter fun _ => w.jobExists m := by
  rw [compacted, setRegistry_registry_self, SortedSet.score_filter]

theorem Ahead.compacted {w : World} (h : Ahead q j n w) (hl : w.loadable j) :
    Ahead q j n (compacted q.name w) := by
  refine h.of_frame ?_ fun s hs => ?_
  · rw [score_compacted, hl.jobExists]
    cases (w.registry q.name .queued).score j <;> rfl
  · rw [score_compacted, Option.filter_eq_some_iff] at hs
    exact hs.1

/-- `dequeue_any` returns the job, or leaves it ahead and does not return the other one. -/
theorem Ahead.dequeueRun (timeout : Option Int) (fuel : Nat) {w : World} (h : Ahead q j n w)
    (hl : w.loadable j) :
    returnedName (q.dequeueRun env timeout fuel w).val = [j] ∨
      (Ahead q j n (q.dequeueRun env timeout fuel w).state ∧
        n ∉ returnedName (q.dequeueRun env timeout fuel w).val) := by
  induction fuel generalizing w with
  | zero => exact Or.inr ⟨h, by simp [Queue.dequeueRun, returnedName]⟩
  | succ fuel ih =>
      have hc := h.compacted hl
      unfold Queue.dequeueRun
      by_cases h0 : timeout = some 0
      · rw [if_pos h0]
        exact Or.inr ⟨hc, by simp [returnedName]⟩
      · rw [if_neg h0]
        cases hp : ((DailyScheduler.compacted q.name w).registry q.name .queued).popMin with
        | none =>
            refine Or.inr ⟨hc, ?_⟩
            dsimp only
            split <;> simp [returnedName]
        | some p =>
            obtain ⟨p, z⟩ := p
            obtain ⟨hpscore, hz⟩ := SortedSet.popMin_eq_some hp
            have hreg := setRegistry_registry_self q.name (DailyScheduler.compacted q.name w)
              .queued z
            dsimp only
            by_cases hpj : p.2 = j
            · -- the job itself: its record loads
              refine Or.inl ?_
              obtain ⟨job, hjob⟩ : ∃ job, JobModel.fetch env
                  ((DailyScheduler.compacted q.name w).setRegistry q.name .queued z) p.2
                    = some job := by
                refine Option.ne_none_iff_exists'.1 fun hnone => ?_
                exact JobModel.fetch_eq_none_iff.1 hnone (hpj ▸ hl)
              rw [hjob]
              show [job.name] = [j]
              rw [JobModel.name_of_fetch hjob, hpj]
            · -- another one: not `n`, which would have to be after `j`
              have hpn : p.2 ≠ n := by
                intro hpn
                obtain ⟨T, hT, hlater⟩ := hc.score
                have hbefore : SortedSet.before p (T, j) :=
                  SortedSet.before_of_popMin hp ((SortedSet.score_eq_some_iff _ _ _).1 hT)
                have hearlier := hlater p.1 (hpn ▸ hpscore)
                rw [← hpn] at hearlier
                exact not_earlier_of_before hbefore hearlier
              have hrest : Ahead q j n
                  ((DailyScheduler.compacted q.name w).setRegistry q.name .queued z) := by
                refine hc.of_frame ?_ fun s hs => ?_
                · rw [hreg, hz, if_neg (Ne.symm hpj)]
                · rw [hreg, hz, if_neg (Ne.symm hpn)] at hs
                  exact hs
              cases hjob : JobModel.fetch env
                  ((DailyScheduler.compacted q.name w).setRegistry q.name .queued z) p.2 with
              | some job =>
                  refine Or.inr ⟨hrest, ?_⟩
                  have hname : job.name = p.2 := JobModel.name_of_fetch hjob
                  show n ∉ [job.name]
                  rw [hname, List.mem_singleton]
                  exact Ne.symm hpn
              | none => exact ih hrest hl

theorem Ahead.enqueue (ha : q.isAsync = true) {w : World} (h : Ahead q j n w) {job : JobModel}
    (hj : job.name ≠ j) (hn : job.name ≠ n) (atFront : Bool) :
    Ahead q j n ((q.enqueueJob env job atFront).exec w) := by
  cases hser : job.serializable with
  | false =>
      rw [Prog.exec_eq_of_run (Queue.run_enqueueJob_error env q hser atFront w)]
      exact h
  | true =>
      rw [Prog.exec_eq_of_run (Queue.run_enqueueJob env ha hser atFront w)]
      have hscore : ∀ m, m ≠ job.name →
          ((q.enqueuedWorld job atFront w).registry q.name .queued).score m
            = (w.registry q.name .queued).score m := by
        intro m hm
        rw [Queue.enqueuedWorld, World.score_zadd, if_neg fun h' => hm h'.2.2, World.score_zrem,
          if_neg fun h' => hm h'.2.2]
        rfl
      refine h.of_frame ?_ fun s hs => ?_
      · exact hscore j (Ne.symm hj)
      · rw [hscore n (Ne.symm hn)] at hs
        exact hs

/-- The job was returned, or it is still ahead and the other one was not returned. -/
def First (q : Queue) (j n : JobName) (s : Served) : Prop :=
  j ∈ s.returned ∨ (Ahead q j n s.world ∧ n ∉ s.returned)

theorem First.step (ha : q.isAsync = true) {s : Served} {op : QueueOp} (h : First q j n s)
    (hop : Untouched j n s op) : First q j n (QueueOp.step env q s op) := by
  rcases h with h | ⟨h, hn⟩
  · refine Or.inl ?_
    cases op with
    | tick d => exact h
    | enqueue job atFront => exact h
    | dequeue timeout fuel => exact List.mem_append_left _ h
  · cases op with
    | tick d => exact Or.inr ⟨⟨h.ne, h.score⟩, hn⟩
    | enqueue job atFront =>
        obtain ⟨hj, hn'⟩ := hop.2 job atFront rfl
        exact Or.inr ⟨h.enqueue ha hj hn' atFront, hn⟩
    | dequeue timeout fuel =>
        simp only [QueueOp.step, Queue.run_dequeueAny]
        rcases hop.1 with hret | hl
        · exact Or.inl (List.mem_append_left _ hret)
        · rcases @Ahead.dequeueRun env q j n timeout fuel s.world h hl with
            hret | ⟨hahead, hnot⟩
          · exact Or.inl (by simp [hret])
          · refine Or.inr ⟨hahead, fun hin => ?_⟩
            exact (List.mem_append.1 hin).elim hn hnot

end Ahead

/-! ## A job that is not ahead -/

section Behind

variable {env : Env} {q : Queue} {j n : JobName}

/-- With enough rounds `dequeue_any` returns a job other than `j`, which was queued with its record,
when some such job comes before `j`. -/
theorem dequeueRun_of_earlier (fuel : Nat) {w : World} {s : Int}
    (hn : (w.registry q.name .queued).score n = some s) (hload : w.loadable n)
    (hj : ∀ T, (w.registry q.name .queued).score j = some T → Earlier (s, n) (T, j))
    (hfuel : (w.registry q.name .queued).entries.length < fuel) :
    ∃ m, returnedName (q.dequeueRun env none fuel w).val = [m] ∧ m ≠ j ∧
      w.inRegistry q.name .queued m ∧ w.loadable m := by
  induction fuel generalizing w with
  | zero => omega
  | succ fuel ih =>
      have hnc : ((compacted q.name w).registry q.name .queued).score n = some s := by
        rw [score_compacted, hn, hload.jobExists]
        rfl
      have hold : ∀ m t, ((compacted q.name w).registry q.name .queued).score m = some t →
          (w.registry q.name .queued).score m = some t := by
        intro m t hm
        rw [score_compacted, Option.filter_eq_some_iff] at hm
        exact hm.1
      unfold Queue.dequeueRun
      rw [if_neg (by simp)]
      cases hp : ((compacted q.name w).registry q.name .queued).popMin with
      | none =>
          have hnone := (SortedSet.not_mem_iff _ _).1 (SortedSet.popMin_eq_none hp n)
          rw [hnc] at hnone
          cases hnone
      | some p =>
          obtain ⟨p, z⟩ := p
          obtain ⟨hpscore, hz⟩ := SortedSet.popMin_eq_some hp
          have hreg := setRegistry_registry_self q.name (compacted q.name w) .queued z
          have hpold := hold p.2 p.1 hpscore
          -- the first entry is not `j`, which comes after `n`
          have hpj : p.2 ≠ j := by
            intro hpj
            have hbefore : SortedSet.before p (s, n) :=
              SortedSet.before_of_popMin hp ((SortedSet.score_eq_some_iff _ _ _).1 hnc)
            refine not_earlier_of_before hbefore ?_
            rw [hpj] at hpold
            have hearlier := hj p.1 hpold
            rw [← hpj] at hearlier
            exact hearlier
          dsimp only
          cases hjob : JobModel.fetch env
              ((compacted q.name w).setRegistry q.name .queued z) p.2 with
          | some job =>
              have hname : job.name = p.2 := JobModel.name_of_fetch hjob
              refine ⟨p.2, by simp [returnedName, hname], hpj, ?_, ?_⟩
              · rw [World.inRegistry_iff, hpold]
                rfl
              · by_contra hnot
                have hnone : JobModel.fetch env
                    ((compacted q.name w).setRegistry q.name .queued z) p.2 = none :=
                  JobModel.fetch_eq_none_iff.2 hnot
                rw [hnone] at hjob
                cases hjob
          | none =>
              have hpn : p.2 ≠ n := by
                intro hpn
                exact JobModel.fetch_eq_none_iff.1 hjob (hpn ▸ hload)
              have hlength : z.entries.length < fuel := by
                have hle : ((compacted q.name w).registry q.name .queued).entries.length
                    ≤ (w.registry q.name .queued).entries.length := by
                  rw [compacted_entries]
                  exact List.length_filter_le _ _
                rw [SortedSet.entries_of_popMin hp, List.length_cons] at hle
                omega
              have hback : ∀ m t,
                  (((compacted q.name w).setRegistry q.name .queued z).registry q.name
                    .queued).score m = some t → (w.registry q.name .queued).score m = some t := by
                intro m t hm
                rw [hreg, hz] at hm
                split at hm
                · cases hm
                · exact hold m t hm
              obtain ⟨m, hret, hmj, hmin, hmload⟩ :=
                ih (w := (compacted q.name w).setRegistry q.name .queued z)
                  (by rw [hreg, hz, if_neg (Ne.symm hpn)]; exact hnc) hload
                  (fun T hT => hj T (hback j T hT)) (by rw [hreg]; exact hlength)
              refine ⟨m, hret, hmj, ?_, hmload⟩
              obtain ⟨t, ht⟩ := Option.isSome_iff_exists.1 ((World.inRegistry_iff _ _ _ _).1 hmin)
              rw [World.inRegistry_iff, hback m t ht]
              rfl

end Behind

section Result

variable {env : Env} {q : Queue} {job : JobModel} {w : World}

theorem enqueuedFront_eq (ha : q.isAsync = true) (hser : job.serializable = true) :
    enqueuedFront env q job w = q.enqueuedWorld job true w :=
  Prog.exec_eq_of_run (Queue.run_enqueueJob env ha hser true w)

theorem score_enqueuedFront (ha : q.isAsync = true) (hser : job.serializable = true)
    (n : JobName) : ((enqueuedFront env q job w).registry q.name .queued).score n
      = if n = job.name then some (currentTimestamp w.now)
        else (w.registry q.name .queued).score n := by
  rw [enqueuedFront_eq ha hser, Queue.enqueuedWorld, World.score_zadd]
  by_cases hn : n = job.name
  · rw [if_pos hn, if_pos ⟨rfl, rfl, hn⟩]
    rfl
  · rw [if_neg hn, if_neg fun h => hn h.2.2, World.score_zrem, if_neg fun h => hn h.2.2]
    rfl

theorem loadable_enqueuedFront (ha : q.isAsync = true) (hser : job.serializable = true)
    {n : JobName} (h : w.loadable n ∨ (n = job.name ∧ job.saveAll = true)) :
    (enqueuedFront env q job w).loadable n := by
  rw [enqueuedFront_eq ha hser]
  exact World.loadable_saveJob (h.imp id fun h => ⟨h.1, Or.inr h.2⟩)

/-- **The front of the queue.** A job that `enqueue_job` puts at the front of a queue with workers
takes priority over the jobs that already wait there exactly when each of them that has its
record is scored after now, or now with a larger name. -/
theorem takes_priority_iff (ha : q.isAsync = true) (hser : job.serializable = true)
    (hrec : w.loadable job.name ∨ job.saveAll = true) :
    TakesPriority env q job w ↔ ScoredLater q job w := by
  have hload : (enqueuedFront env q job w).loadable job.name :=
    loadable_enqueuedFront ha hser (hrec.imp id fun h => ⟨rfl, h⟩)
  constructor
  · intro h n s hn hs hl
    by_contra hnot
    -- the first job that one dequeue returns is another one
    have hearlier : Earlier (s, n) (currentTimestamp w.now, job.name) := by
      rcases lt_trichotomy s (currentTimestamp w.now) with hlt | heq | hgt
      · exact Or.inl hlt
      · rcases lt_trichotomy n job.name with hlt | heq' | hgt
        · exact Or.inr ⟨heq, hlt⟩
        · exact absurd heq' hn
        · exact absurd (Or.inr ⟨heq.symm, hgt⟩) hnot
      · exact absurd (Or.inl hgt) hnot
    let fuel := ((enqueuedFront env q job w).registry q.name .queued).entries.length + 1
    obtain ⟨m, hret, hm, hqueued, hmload⟩ := @dequeueRun_of_earlier env q job.name n fuel
      (enqueuedFront env q job w) s
      (by rw [score_enqueuedFront ha hser, if_neg hn, hs])
      (loadable_enqueuedFront ha hser (Or.inl hl))
      (fun T hT => by
        rw [score_enqueuedFront ha hser, if_pos rfl] at hT
        rw [← Option.some.inj hT]
        exact hearlier)
      (Nat.lt_succ_self _)
    have hqueued' : w.inRegistry q.name .queued m := by
      rw [World.inRegistry_iff, score_enqueuedFront ha hser, if_neg hm] at hqueued
      rwa [World.inRegistry_iff]
    have hmload' : w.loadable m := by
      obtain ⟨v, hv, hc⟩ := hmload
      rw [enqueuedFront_eq ha hser] at hv
      have hfind : (w.saveJob (Queue.enqueuedModel job w.now) false).jobs.find? m
          = w.jobs.find? m := World.find?_saveJob_of_ne w _ false hm
      exact ⟨v, hfind.symm.trans hv, hc⟩
    have hmeets : Run.Meets (QueueOp.step env q) (Untouched job.name m)
        ⟨enqueuedFront env q job w, [], []⟩ [.dequeue none fuel] :=
      ⟨⟨Or.inr hload, fun job atFront h => by cases h⟩, trivial⟩
    have hlast := (h m hm hqueued' hmload' _ hmeets).last
    simp only [Run.last, List.foldl, QueueOp.step, Queue.run_dequeueAny, hret] at hlast
    have hin := hlast (List.mem_singleton_self m)
    exact hm (List.mem_singleton.1 hin).symm
  · intro h n hn hqueued hl l hmeets
    have hstart : First q job.name n ⟨enqueuedFront env q job w, [], []⟩ := by
      refine Or.inr ⟨⟨hn, currentTimestamp w.now, ?_, fun s hs => ?_⟩, List.not_mem_nil⟩
      · rw [score_enqueuedFront ha hser, if_pos rfl]
      · rw [score_enqueuedFront ha hser, if_neg hn] at hs
        exact h n s hn hs hl
    refine (Run.along_of_step (fun _ _ h hop => First.step ha h hop) hstart hmeets).mono
      fun s hs hin => ?_
    rcases hs with hs | ⟨_, hs⟩
    · exact hs
    · exact absurd hin hs

end Result

/-- A job that the clock puts before the only waiting one. -/
theorem sample_takes_priority :
    TakesPriority Sample.env Sample.queue (Sample.job "a")
      ((Sample.queue.enqueueJob Sample.env (Sample.job "b") true).exec (World.init 1000000)) := by
  refine (takes_priority_iff rfl rfl (Or.inr rfl)).2 fun n s _ hs _ => ?_
  have hentries : (((Sample.queue.enqueueJob Sample.env (Sample.job "b") true).exec
      (World.init 1000000)).registry "q" .queued).entries = [(1000000, "b")] := by
    decide +kernel
  have hin := (SortedSet.score_eq_some_iff _ _ _).1 hs
  rw [show Sample.queue.name = "q" from rfl, hentries, List.mem_singleton] at hin
  cases hin
  exact Or.inr ⟨by decide +kernel, by decide⟩

/-- The job `a` is put at the front a second after the job `b` was enqueued, and returned after
it. -/
theorem passed_at_front :
    (Run.last (QueueOp.step Sample.env Sample.queue) ⟨World.init 1000000, [], []⟩
      [.enqueue (Sample.job "b") false, .tick 1000000, .enqueue (Sample.job "a") true,
        .dequeue none 1, .dequeue none 1]).returned = ["b", "a"] := by
  decide +kernel

end DailyScheduler.Front
