import DailyScheduler.Concurrency.Dequeue
import DailyScheduler.Execution.Steps
import DailyScheduler.Model.Sample

set_option autoImplicit false

/-! # Canceling a job while workers run

One client runs `cancel_job` for a job while any number of workers dequeue and execute jobs and
the clock moves on, all interleaved step by step. `cancel_job` takes the name out of the queued
registry in the step that writes `CANCELED`; no worker looks at the status again. So the job
is not started afterwards provided that no worker already holds it at that step, and it may be
started when one does.
-/

namespace DailyScheduler.Cancel

open AtomicProg

/-! ## The parties -/

inductive Party (κ : Type) where
  | client
  | clock
  | worker (k : κ)
  deriving DecidableEq

/-- What a worker is started with. -/
structure WorkerSpec where
  worker : Worker
  queues : List Queue
  timeout : Option Int
  fork : Bool
  rounds : Nat
  fuel : Nat

def WorkerSpec.program (env : Env) (s : WorkerSpec) : Py Unit := do
  let _ ← s.worker.work env s.queues s.timeout s.fork s.fuel s.rounds

variable {κ : Type}

/-- The client that cancels `n`, the clock and the workers, in the world `w`. -/
def pool (env : Env) (q : Queue) (n : JobName) (ticks : List Nat) (workers : κ → WorkerSpec)
    (w : World) : Pool (Party κ) World Event PyError Unit where
  threads := fun
    | .client => q.cancelJob env n
    | .clock => Prog.forEach ticks fun d => Prog.write (·.advance d)
    | .worker k => (workers k).program env
  state := w
  log := []

/-- The worker popped the job and has neither started it nor given it up since. -/
def Holding (i : Party κ) (n : JobName) (log : List (Party κ × Event)) : Prop :=
  ∃ pre q post, log = pre ++ (i, .popped q n) :: post ∧
    ∀ e, (i, e) ∈ post → e ≠ .called n ∧ e ≠ .dropped n

/-! ## The contract of a party -/

/-- What a step of party `i` may do, as far as the job `n` is concerned: it puts the job into
no queued registry, pops it only from one it is in, starts it only when it holds it, and takes
it out of the queue `q` when it cancels it. -/
structure Guar (q : QueueName) (n : JobName) (i : Party κ)
    (c c' : Config World (Party κ × Event)) : Prop where
  queued : ∀ q', c'.1.inRegistry q' .queued n → c.1.inRegistry q' .queued n
  log : ∃ es : List Event, c'.2 = c.2 ++ es.map (fun e => (i, e)) ∧
    (∀ q', .popped q' n ∈ es → c.1.inRegistry q' .queued n) ∧
    (.called n ∈ es → Holding i n c.2) ∧
    (.canceled n ∈ es → (∀ q', .popped q' n ∉ es) ∧ ¬ c'.1.inRegistry q .queued n)

/-- A step that concerns `n` in no way that matters here. -/
def Quiet (n : JobName) (w w' : World) (es : List Event) : Prop :=
  (∀ q, w'.inRegistry q .queued n → w.inRegistry q .queued n) ∧
    ∀ e ∈ es, e ≠ .called n ∧ e ≠ .dropped n ∧ e ≠ .canceled n ∧ ∀ q, e ≠ .popped q n

theorem Quiet.guar {n : JobName} {w w' : World} {es : List Event} (h : Quiet n w w' es)
    (q : QueueName) (i : Party κ) (t : List (Party κ × Event)) :
    Guar q n i (w, t) (w', t ++ es.map (fun e => (i, e))) where
  queued := h.1
  log := ⟨es, rfl, fun q' hq => absurd rfl ((h.2 _ hq).2.2.2 q'),
    fun hc => absurd rfl (h.2 _ hc).1, fun hc => absurd rfl (h.2 _ hc).2.2.1⟩

theorem Holding.append {i j : Party κ} {n : JobName} {t : List (Party κ × Event)}
    {es : List Event} (h : Holding i n t)
    (he : ∀ e ∈ es, j = i → e ≠ .called n ∧ e ≠ .dropped n) :
    Holding i n (t ++ es.map (fun e => (j, e))) := by
  obtain ⟨pre, q, post, rfl, hpost⟩ := h
  refine ⟨pre, q, post ++ es.map (fun e => (j, e)), by simp, fun e hmem => ?_⟩
  rcases List.mem_append.1 hmem with hmem | hmem
  · exact hpost e hmem
  · obtain ⟨e', he', heq⟩ := List.mem_map.1 hmem
    simp only [Prod.mk.injEq] at heq
    obtain ⟨rfl, rfl⟩ := heq
    exact he e' he' rfl

/-- Without a new pop, nobody comes to hold the job. -/
theorem Holding.of_append {i j : Party κ} {n : JobName} {t : List (Party κ × Event)}
    {es : List Event} (h : Holding i n (t ++ es.map (fun e => (j, e))))
    (he : ∀ q, .popped q n ∉ es) : Holding i n t := by
  obtain ⟨pre, q, post, heq, hpost⟩ := h
  rcases List.append_eq_append_iff.1 heq with ⟨m, hpre, hes⟩ | ⟨m, ht, hes⟩
  · -- the pop would be among the new events
    have hmem : (i, Event.popped q n) ∈ es.map (fun e => (j, e)) := by
      rw [hes]; simp
    obtain ⟨e, he', heq'⟩ := List.mem_map.1 hmem
    have : e = .popped q n := congrArg Prod.snd heq'
    exact absurd (this ▸ he') (he q)
  · cases m with
    | nil =>
        have hmem : (i, Event.popped q n) ∈ es.map (fun e => (j, e)) := by
          have : (i, Event.popped q n) ∈ (i, Event.popped q n) :: post := by simp
          rw [hes] at this
          simpa using this
        obtain ⟨e, he', heq'⟩ := List.mem_map.1 hmem
        have : e = .popped q n := congrArg Prod.snd heq'
        exact absurd (this ▸ he') (he q)
    | cons x m =>
        rw [List.cons_append, List.cons.injEq] at hes
        obtain ⟨rfl, rfl⟩ := hes
        exact ⟨pre, q, m, ht, fun e hmem => hpost e (by simp [hmem])⟩

/-! ## What an execution does to the queued registries -/

theorem quiet_of_execStep {q : QueueName} {m n : JobName} {w w' : World} {es : List Event}
    (h : ExecStep q m w w' es) : Quiet n w w' es := by
  cases h with
  | add k s hk =>
      refine ⟨fun q' h => ?_, by simp⟩
      rw [World.inRegistry_zadd] at h
      refine h.resolve_left fun h' => ?_
      rcases hk with rfl | rfl | rfl <;> cases h'.2.1
  | remove =>
      refine ⟨fun q' h => ?_, by simp⟩
      rw [World.inRegistry_zrem] at h
      exact h.2
  | success => exact ⟨fun _ h => h, by simp⟩
  | failure => exact ⟨fun _ h => h, by simp⟩
  | _ => exact ⟨fun _ h => h, by simp⟩

theorem quiet_of_expireStep {m n : JobName} {w w' : World} {es : List Event}
    (h : ExpireStep m w w' es) : Quiet n w w' es := by
  cases h with
  | expire => exact ⟨fun _ h => h, by simp⟩
  | delete => exact ⟨fun _ h => h, by simp⟩

theorem quiet_of_execOr {q : QueueName} {m n : JobName} {w w' : World} {es : List Event}
    (h : ExecOr q m (Quiet n) w w' es) : Quiet n w w' es :=
  h.elim quiet_of_execStep id

/-! ## The parties keep their contracts -/

/-- The contract of party `i`. -/
def side (q : QueueName) (n : JobName) (i : Party κ) : Side World Event (Party κ × Event) :=
  Side.amid (Guar q n) i

variable {qc : QueueName} {n : JobName} {i : Party κ}

/-- What a worker that executes the job `m` knows until it calls it. -/
def Mine (n : JobName) (i : Party κ) (m : JobName) (c : Config World (Party κ × Event)) : Prop :=
  m = n → Holding i n c.2

theorem stable_mine (m : JobName) : Stable (side qc n i).rely (Mine n i m) := by
  refine Side.stable_amid fun j hj c c' hg h hm => ?_
  obtain ⟨es, hlog, -⟩ := hg.log
  rw [hlog]
  exact (h hm).append fun e _ heq => absurd heq hj

theorem stable_true : Stable (side qc n i).rely fun _ => True := fun _ _ _ _ => trivial

/-- Quiet steps keep the contract, and what the worker knows. -/
theorem quiet_triple {α : Type} {p : Py α} {Q : α → Prop} (h : p.Steps (Quiet n) Q)
    (m : JobName) :
    (side qc n i).Triple (Mine n i m) p (fun a c => Mine n i m c ∧ Q a) (fun _ _ => True) :=
  h.triple (stable_mine m) (fun _ _ _ => trivial) fun _ t _ _ hI hq =>
    ⟨hq.guar qc i t, fun hm => (hI hm).append fun e he _ => ⟨(hq.2 e he).1, (hq.2 e he).2.1⟩⟩

theorem quiet_triple' {α : Type} {p : Py α} {Q : α → Prop} (h : p.Steps (Quiet n) Q) :
    (side qc n i).Triple (fun _ => True) p (fun a _ => Q a) (fun _ _ => True) :=
  (h.triple (I := fun _ => True) stable_true (fun _ _ _ => trivial)
    fun _ t _ _ _ hq => ⟨hq.guar qc i t, trivial⟩).mono (fun _ h => h) (fun _ _ h => h.2)
    (fun _ _ h => h)

theorem execTriple {α : Type} {p : Py α} {q : QueueName} {m : JobName} {Q : α → Prop}
    (h : p.Steps (ExecOr q m (Quiet n)) Q) :
    (side qc n i).Triple (fun _ => True) p (fun a _ => Q a) (fun _ _ => True) :=
  quiet_triple' (h.mono (fun _ _ _ hs => quiet_of_execOr hs) fun _ => id)

theorem execTriple_mine {α : Type} {p : Py α} {q : QueueName} {m : JobName} {Q : α → Prop}
    (h : p.Steps (ExecOr q m (Quiet n)) Q) :
    (side qc n i).Triple (Mine n i m) p (fun a c => Mine n i m c ∧ Q a) (fun _ _ => True) :=
  quiet_triple (h.mono (fun _ _ _ hs => quiet_of_execOr hs) fun _ => id) m

/-- Calling the job needs that the worker holds it, if it is the canceled one. -/
theorem callFunc_triple {env : Env} (hU : UserCode env (Quiet n)) (j : JobModel) :
    (side qc n i).Triple (Mine n i j.name) (callFunc env j)
      (fun r _ => Named j.name r ∧ ∀ o, r.2 = .ok o →
        ∀ p, o.coroutine = some p → p.Steps (Quiet n) fun _ => True) (fun _ _ => True) := by
  unfold callFunc
  cases hf : env.callableFunc j.funcName with
  | error x => exact Side.Triple.ret (stable_mine _) fun _ _ => ⟨rfl, by simp⟩
  | ok f =>
      refine Side.Triple.bind (Q := fun _ _ => True)
        (Side.Triple.emit (stable_mine _) stable_true fun w t hm => ⟨?_, trivial⟩)
        (fun _ => quiet_triple' (call_steps hU hf rfl))
      refine ⟨fun _ h => h, [.called j.name], rfl, by simp, fun hmem => ?_, by simp⟩
      simp only [List.mem_singleton, Event.called.injEq] at hmem
      exact hm hmem.symm

theorem queuePerformJob_triple {env : Env} (hU : UserCode env (Quiet n)) (j : JobModel) :
    (side qc n i).Triple (Mine n i j.name) (queuePerformJob env j) (fun r _ => Named j.name r)
      (fun _ _ => True) := by
  have hpersist : (j.persist).Steps (ExecOr "" j.name (Quiet n)) fun _ => True :=
    writeStep fun w => .persist w
  refine Side.Triple.bind ((execTriple_mine hpersist).mono (fun _ h => h) (fun _ _ h => h.1)
    (fun _ _ h => h)) (fun _ => ?_)
  refine Side.Triple.bind (Q := fun r _ => Named j.name r) ?_ (fun r => ?_)
  · refine After.next_triple (callFunc_triple hU j) (fun j' o => ?_)
      (fun j' x => Side.Triple.ret (fun _ _ _ h => h) fun _ h => h.1)
    intro c hc
    exact execTriple (q := "") (afterCall_steps hU hc.1 (hc.2 o rfl)) c trivial
  · intro c hr
    exact execTriple (q := "") (exceptClause_steps hU hr) c trivial

theorem performAndStore_triple {env : Env} (hU : UserCode env (Quiet n)) (wk : Worker)
    (j : JobModel) (queue : Queue) :
    (side qc n i).Triple (Mine n i j.name) (wk.performAndStore env j queue)
      (fun r _ => Named j.name r) (fun _ _ => True) := by
  refine After.next_triple (execTriple_mine (prepareForExecution_steps (q := queue.name) rfl
    wk.name)) (fun j' _ => ?_) (fun j' x => ?_)
  · intro c hc
    have hj' : j'.name = j.name := hc.2
    have hm : Mine n i j'.name c := fun h => hc.1 (hj' ▸ h)
    rw [← hj']
    refine After.next_triple (queuePerformJob_triple hU j') (fun j'' v => ?_) (fun j'' x => ?_) c hm
    · intro c' hc'
      exact execTriple (jobHandleSuccess_steps hc' v _ _) c' trivial
    · exact Side.Triple.ret (fun _ _ _ h => h) fun _ h => h
  · exact Side.Triple.ret (Side.Stable.and (stable_mine j.name) (Side.Stable.const _)) fun _ h => h.2

theorem workerPerformJob_triple {env : Env} (hU : UserCode env (Quiet n)) (wk : Worker)
    (j : JobModel) (queue : Queue) :
    (side qc n i).Triple (Mine n i j.name) (wk.workerPerformJob env j queue) (fun _ _ => True)
      (fun _ _ => True) := by
  refine Side.Triple.bind ((execTriple_mine (q := queue.name)
    (workerBeforeExecution_steps wk j)).mono (fun _ h => h) (fun _ _ h => h.1) (fun _ _ h => h))
    (fun wk' => ?_)
  refine Side.Triple.bind (performAndStore_triple hU wk' j queue) (fun r => ?_)
  intro c hr
  obtain ⟨j', x | a⟩ := r
  · refine Side.Triple.bind (execTriple (handleJobFailure_steps wk' hr queue "traceback"))
      (fun r => ?_) c trivial
    obtain ⟨wk'', j'', x | a⟩ := r
    · exact Side.Triple.ret stable_true fun _ h => h
    · exact Side.Triple.ret stable_true fun _ h => h
  · refine Side.Triple.bind (quiet_triple' ?_) (fun r => Side.Triple.ret stable_true fun _ h => h)
      c trivial
    exact (finishSuccess_steps (q := queue.name) wk' hr).mono
      (fun _ _ _ h => h.elim quiet_of_execOr quiet_of_expireStep) fun _ => id

theorem executeJob_triple {env : Env} (hU : UserCode env (Quiet n)) (wk : Worker)
    (j : JobModel) (queue : Queue) (fork : Bool) :
    (side qc n i).Triple (Mine n i j.name) (wk.executeJob env j queue fork) (fun _ _ => True)
      (fun _ _ => True) := by
  have hrefl : ∀ c, Mine n i j.name c → (side qc n i).guar c c := fun c _ =>
    ⟨fun _ h => h, [], by simp, by simp, by simp, by simp⟩
  refine Side.Triple.bind (Q := fun (r : Option JobModel) c => Mine n i j.name c ∧
    ∀ j', r = some j' → j'.name = j.name) ?_ (fun r => ?_)
  · refine Side.Triple.ite (fun _ => ?_) (fun _ => ?_)
    · refine Side.Triple.read (stable_mine _) (fun _ => Side.Stable.and (stable_mine _) (Side.Stable.const _)) hrefl
        (fun w t hm => ⟨hm, fun j' h => JobModel.name_of_fetch h⟩)
    · refine Side.Triple.ret (stable_mine _) fun c hm => ⟨hm, fun j' h => ?_⟩
      cases h
      rfl
  · cases r with
    | none => exact Side.Triple.ret (Side.Stable.and (stable_mine _) (Side.Stable.const _)) fun _ _ => trivial
    | some j' =>
        intro c hc
        have hj' : j'.name = j.name := hc.2 j' rfl
        refine Side.Triple.bind (workerPerformJob_triple hU wk j' queue) (fun r => ?_) c
          (fun h => hc.1 (hj' ▸ h))
        obtain ⟨wk', j'', x | a⟩ := r
        · exact Side.Triple.ite (fun _ => Side.Triple.ret stable_true fun _ h => h)
            (fun _ => Side.Triple.raise stable_true fun _ h => h)
        · exact Side.Triple.ret stable_true fun _ h => h

/-- What a worker knows in the course of `dequeue_any`. -/
def view (n : JobName) (i : Party κ) : DequeueView (Party κ × Event) where
  Seen := fun _ _ => True
  Gone := fun _ _ => True
  Held := fun _ m c => Mine n i m c
  Lost := fun _ _ => True
  Given := fun _ m c => Mine n i m c

theorem dequeueRule (qs : List QueueName) :
    DequeueRule (side qc n i) (fun _ => True) (view n i) qs where
  stable := stable_true
  stableSeen := fun _ _ _ _ h => h
  stableGone := fun _ _ _ _ h => h
  stableHeld := fun _ m => Side.Stable.and stable_true (stable_mine m)
  stableLost := fun _ _ _ _ h => h
  stableGiven := fun _ m => Side.Stable.and stable_true (stable_mine m)
  refl := fun _ _ => ⟨fun _ h => h, [], by simp, by simp, by simp, by simp⟩
  seen := fun _ _ _ _ _ _ _ => trivial
  gone := fun _ _ _ _ _ _ => trivial
  delete := fun w t q m _ _ _ => by
    refine ⟨⟨fun q' h => ?_, [], by simp, by simp, by simp, by simp⟩, trivial,
      fun _ _ => trivial⟩
    exact ((World.inRegistry_zrem w q q' _ _ m n).1 h).2
  pop := fun w w' t q m _ _ hp => by
    obtain ⟨z, rfl, hq, hscore⟩ := World.zpopmin_some hp
    refine ⟨⟨fun q' h => ?_, [.popped q m], rfl, fun q' hmem => ?_, by simp, by simp⟩, trivial,
      fun hm => ?_⟩
    · rw [World.inRegistry_iff, hscore] at h
      rw [World.inRegistry_iff]
      split at h
      · cases h
      · exact h
    · simp only [List.mem_singleton, Event.popped.injEq] at hmem
      exact hmem.1 ▸ hmem.2 ▸ hq
    · subst hm
      exact ⟨t, q, [], rfl, by simp⟩
  lost := fun _ _ _ _ _ _ _ => trivial
  drop := fun w t m _ _ =>
    ⟨⟨fun _ h => h, [.dropped m], rfl, by simp, by simp, by simp⟩, trivial⟩
  give := fun w t _ m _ hheld =>
    ⟨⟨fun _ h => h, [.delivered m], rfl, by simp, by simp, by simp⟩, trivial,
      fun hm => by
        have hkeep : ∀ e ∈ [Event.delivered m], i = i → e ≠ .called n ∧ e ≠ .dropped n := by simp
        exact (hheld hm).append hkeep⟩

theorem work_triple {env : Env} (hU : UserCode env (Quiet n)) (queues : List Queue)
    (timeout : Option Int) (fork : Bool) (fuel : Nat) (rounds : Nat) :
    ∀ wk : Worker, (side qc n i).Triple (fun _ => True)
      (wk.work env queues timeout fork fuel rounds) (fun _ _ => True) (fun _ _ => True) := by
  induction rounds with
  | zero => exact fun wk => Side.Triple.ret stable_true fun _ h => h
  | succ rounds ih =>
      intro wk
      refine Side.Triple.bind (Q := fun r c => True ∧
        DequeueRule.Dequeued env (view n i) queues r c) ?_ (fun r => ?_)
      · refine Side.Triple.tryCatch
          ((dequeueRule (queues.map Queue.name)).dequeueAny_triple env timeout fuel) (fun x => ?_)
        exact Side.Triple.ite (fun _ => Side.Triple.ret stable_true fun _ _ =>
          ⟨trivial, fun j q hj => by cases hj⟩)
          (fun _ => Side.Triple.raise stable_true fun _ h => h)
      · cases r with
        | none =>
            intro c _
            exact Side.Triple.ite (fun _ => Side.Triple.ret stable_true fun _ h => h)
              (fun _ => ih wk) c trivial
        | some p =>
            intro c hc
            refine Side.Triple.bind (executeJob_triple hU wk p.1 p.2 fork) (fun wk' => ih wk') c ?_
            exact (hc.2 p.1 p.2 rfl).2.2

/-- A write that only takes names out of queued registries is quiet. -/
theorem quiet_write {f : World → World}
    (h : ∀ w q, (f w).inRegistry q .queued n → w.inRegistry q .queued n) :
    (Prog.write f : Py Unit).Steps (Quiet n) fun _ => True :=
  Prog.Steps.write fun w => ⟨h w, by simp⟩

theorem quiet_read {β : Type} (g : World → β) :
    (Prog.read g : Py β).Steps (Quiet n) fun _ => True :=
  fun _ => ⟨⟨fun _ h => h, by simp⟩, trivial⟩

theorem quiet_add (q : QueueName) (k : RegistryKind) (m : JobName) (s : Int)
    (hk : k ≠ .queued) : ((Registry.mk q k).add m s).Steps (Quiet n) fun _ => True :=
  quiet_write fun w q' h => ((World.inRegistry_zadd w q q' k _ m n s).1 h).resolve_left
    fun h' => hk h'.2.1.symm

theorem clock_steps (ticks : List Nat) :
    (Prog.forEach ticks fun d => Prog.write (·.advance d) : Py Unit).Steps (Quiet n)
      fun _ => True :=
  Prog.Steps.forEach fun _ _ => quiet_write fun _ _ h => h

theorem not_inRegistry_removeFromRegistries (q : Queue) (m : JobName) (w : World) :
    ¬ (q.removeFromRegistries m w).inRegistry q.name .queued m := by
  rw [Queue.removeFromRegistries, World.inRegistry_zrem]
  simp

theorem inRegistry_of_removeFromRegistries {q : Queue} {m m' : JobName} {w : World}
    {q' : QueueName} {k : RegistryKind}
    (h : (q.removeFromRegistries m w).inRegistry q' k m') : w.inRegistry q' k m' := by
  simp only [Queue.removeFromRegistries, World.inRegistry_zrem] at h
  exact h.2.2.2.2.2

theorem cancelJob_triple (env : Env) (q : Queue) (m : JobName) :
    (side q.name n i).Triple (fun _ => True) (q.cancelJob env m) (fun _ _ => True)
      (fun _ _ => True) := by
  refine Side.Triple.bind (quiet_triple' (quiet_read _)) (fun r c _ => ?_)
  cases r with
  | none => exact Side.Triple.raise stable_true (fun _ h => h) c trivial
  | some job =>
      refine Side.Triple.ite (fun _ => Side.Triple.raise stable_true fun _ h => h) (fun _ => ?_) c
        trivial
      refine Side.Triple.bind (Q := fun _ _ => True)
        (Side.Triple.command stable_true (fun _ => stable_true) fun w t _ => ⟨?_, trivial⟩)
        (fun _ => ?_)
      · -- the pipeline: the status and all registries in one step
        refine ⟨fun q' h => inRegistry_of_removeFromRegistries (w := w.hsetStatus _ _) h, _, rfl,
          fun q' hmem => ?_, fun hmem => ?_, fun hmem => ?_⟩
        · split at hmem <;> simp at hmem
        · split at hmem <;> simp at hmem
        · split at hmem
          · simp only [List.mem_singleton, Event.canceled.injEq] at hmem
            subst hmem
            exact ⟨fun q' => by split <;> simp, not_inRegistry_removeFromRegistries q n _⟩
          · cases hmem
      · refine Side.Triple.ite (fun _ => quiet_triple' (quiet_add _ _ _ _ (by decide)))
          (fun _ => ?_)
        exact quiet_triple' ((quiet_read _).bind fun t _ => quiet_add _ _ _ _ (by decide))

/-! ## The pool -/

theorem pool_allSafe {env : Env} (hU : UserCode env (Quiet n)) (q : Queue) (ticks : List Nat)
    (workers : κ → WorkerSpec) (w : World) :
    (pool env q n ticks workers w).AllSafe (side q.name n) (fun _ _ _ => True)
      (fun _ _ _ => True) := by
  intro i
  cases i with
  | client => exact cancelJob_triple env q n _ trivial
  | clock =>
      exact ((quiet_triple' (clock_steps ticks)).mono (fun _ h => h) (fun _ _ _ => trivial)
        (fun _ _ h => h)) _ trivial
  | worker k =>
      exact Side.Triple.bind (work_triple hU _ _ _ _ _ _)
        (fun _ => Side.Triple.ret stable_true fun _ h => h) _ trivial

/-- Nobody can start the job any more: it is in no queue and nobody holds it. -/
def Clear (n : JobName) (c : Config World (Party κ × Event)) : Prop :=
  (∀ q, ¬ c.1.inRegistry q .queued n) ∧ ∀ i, ¬ Holding i n c.2

/-- From a clear configuration on, no step starts the job, and every configuration is clear. -/
theorem clear_step {q : QueueName} {c c' : Config World (Party κ × Event)}
    (hg : Guar q n i c c') (hc : Clear n c) :
    Clear n c' ∧ ∃ es, c'.2 = c.2 ++ es ∧ ∀ j, (j, .called n) ∉ es := by
  obtain ⟨es, hlog, hpop, hcall, -⟩ := hg.log
  refine ⟨⟨fun q' h => hc.1 q' (hg.queued q' h), fun j hj => ?_⟩, _, hlog, fun j hmem => ?_⟩
  · rw [hlog] at hj
    exact hc.2 j (hj.of_append fun q' hmem => hc.1 q' (hpop q' hmem))
  · obtain ⟨e, he, heq⟩ := List.mem_map.1 hmem
    simp only [Prod.mk.injEq] at heq
    obtain ⟨rfl, rfl⟩ := heq
    exact hc.2 _ (hcall he)

variable [DecidableEq κ]

/-- **A job that nobody holds when it is canceled is not started afterwards.** Let the client's
next step after the schedule `l` be the one that writes `CANCELED`, and let no party hold the
job then, nor another queue contain it. Whatever happens next, the job is never called. -/
theorem not_called_after_cancel {env : Env} (hU : UserCode env (Quiet n)) (q : Queue)
    (ticks : List Nat) (workers : κ → WorkerSpec) (w : World) (l l' : List (Party κ))
    (hcancel : (Party.client, Event.canceled n) ∈
      (((pool env q n ticks workers w).exec l).step .client).log)
    (hfirst : (Party.client, Event.canceled n) ∉ ((pool env q n ticks workers w).exec l).log)
    (hfree : ∀ i, ¬ Holding i n ((pool env q n ticks workers w).exec l).log)
    (hother : ∀ q', q' ≠ q.name →
      ¬ ((pool env q n ticks workers w).exec l).state.inRegistry q' .queued n) :
    ∃ later, ((((pool env q n ticks workers w).exec l).step .client).exec l').log
        = (((pool env q n ticks workers w).exec l).step .client).log ++ later ∧
      ∀ i, (i, .called n) ∉ later := by
  have hsafe := (Pool.exec_safe (S := side q.name n) (fun _ _ => rfl) Side.amid_covers
    (pool_allSafe hU q ticks workers w) l).1
  obtain ⟨hsafe', hstep⟩ := Pool.step_safe (S := side q.name n) (fun _ _ => rfl)
    Side.amid_covers hsafe .client
  -- after the step that cancels the job, the configuration is clear
  have hclear : Clear n (((pool env q n ticks workers w).exec l).step .client).config := by
    rcases hstep with heq | hg
    · rw [heq] at hcancel
      exact absurd hcancel hfirst
    · obtain ⟨es, hlog, hpop, -, hout⟩ := hg.log
      have hmem : Event.canceled n ∈ es := by
        have h : (Party.client, Event.canceled n) ∈
            ((pool env q n ticks workers w).exec l).config.2 ++ es.map (fun e => (.client, e)) :=
          hlog ▸ hcancel
        rcases List.mem_append.1 h with h | h
        · exact absurd h hfirst
        · obtain ⟨e, he, heq⟩ := List.mem_map.1 h
          have heq' : e = .canceled n := congrArg Prod.snd heq
          exact heq' ▸ he
      refine ⟨fun q' h => ?_, fun i hi => ?_⟩
      · by_cases hq : q' = q.name
        · subst hq; exact (hout hmem).2 h
        · exact hother q' hq (hg.queued q' h)
      · rw [hlog] at hi
        exact hfree i (hi.of_append (hout hmem).1)
  obtain ⟨-, hrun⟩ := Pool.exec_safe (S := side q.name n) (fun _ _ => rfl) Side.amid_covers
    hsafe' l'
  have key : ∀ c, Relation.ReflTransGen (fun c c' => ∃ i, (side q.name n i).guar c c')
      (((pool env q n ticks workers w).exec l).step .client).config c →
      Clear n c ∧ ∃ later, c.2 = (((pool env q n ticks workers w).exec l).step .client).log ++
        later ∧ ∀ i, (i, Event.called n) ∉ later := by
    intro c hc
    induction hc with
    | refl => exact ⟨hclear, [], by simp [Pool.config], by simp⟩
    | tail _ hg ih =>
        obtain ⟨i, hg⟩ := hg
        obtain ⟨hc, later, hlater, hnone⟩ := ih
        obtain ⟨hc', es, hes, hnone'⟩ := clear_step hg hc
        refine ⟨hc', later ++ es, by rw [hes, hlater, List.append_assoc], fun i hmem => ?_⟩
        rcases List.mem_append.1 hmem with h | h
        · exact hnone i h
        · exact hnone' i h
  exact (key _ hrun).2

/-- One worker, the client and the clock; the job `a` is queued. -/
def samplePool : Pool (Party Unit) World Event PyError Unit :=
  pool Sample.env Sample.queue "a" [1]
    (fun _ => ⟨Sample.worker "w", [Sample.queue], none, false, 1, 1⟩)
    ((Sample.worldWith ["a"]).zadd "q" .queued "a" 1)

/-- The client cancels the job before the worker pops it. -/
theorem sample_not_called_after_cancel :
    ∃ later, (((samplePool.exec [.worker (), .client]).step .client).exec
        [.worker (), .client, .worker (), .worker ()]).log
      = ((samplePool.exec [.worker (), .client]).step .client).log ++ later ∧
      ∀ i, (i, .called "a") ∉ later :=
  not_called_after_cancel (Sample.userCode _) Sample.queue [1] _ _ [.worker (), .client] _
    (by decide) (by decide)
    (by
      rintro i ⟨pre, q, post, h, -⟩
      have hlog : (samplePool.exec [.worker (), .client]).log = [] := by decide
      have h' : [] = pre ++ (i, Event.popped q "a") :: post := hlog ▸ h
      simp at h')
    (by
      intro q' hq h
      have h' : ((Sample.worldWith ["a"]).zadd "q" .queued "a" 1).inRegistry q' .queued "a" := h
      rw [World.inRegistry_zadd] at h'
      rcases h' with h' | h'
      · exact hq h'.1
      · simp [World.inRegistry_iff, Sample.worldWith, World.init] at h')

/-- A worker has popped the job and loaded its record, and `cancel_job` returns normally after
writing `CANCELED`; then the worker calls the job. -/
theorem called_after_cancel :
    (samplePool.exec (List.replicate 5 (.worker ()) ++ List.replicate 3 .client)).threads .client
        = .ret () ∧
      (Party.client, Event.canceled "a") ∈
        (samplePool.exec (List.replicate 5 (.worker ()) ++ List.replicate 3 .client)).log ∧
      (samplePool.exec (List.replicate 5 (.worker ()) ++ List.replicate 3 .client)).state.status
        "a" = some .canceled ∧
      ((samplePool.exec (List.replicate 5 (.worker ()) ++ List.replicate 3 .client)).log.count
        (.worker (), .called "a") = 0) ∧
      ((samplePool.exec (List.replicate 5 (.worker ()) ++ List.replicate 3 .client ++
        List.replicate 9 (.worker ()))).log.count (.worker (), .called "a") = 1) := by
  refine ⟨rfl, by decide, by decide, by decide, by decide⟩

end DailyScheduler.Cancel
