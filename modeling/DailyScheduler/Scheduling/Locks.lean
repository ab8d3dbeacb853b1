import DailyScheduler.Lib.Objects
import DailyScheduler.Lib.Run
import DailyScheduler.Model.Sample
import DailyScheduler.Scheduling.Commands

set_option autoImplicit false

/-! # Who looks after a queue

A `WorkerScheduler` looks after the queues whose locks it has acquired. It remembers the locks, and
never forgets one: not when the key expires while another step takes its time, and not when it
releases the key. For every interleaving: as long as no key expires under an active scheduler, and no
scheduler is started that remembers locks, no two running schedulers look after one queue.
-/

namespace DailyScheduler.Locks

open AtomicProg

/-! ## Schedulers side by side -/

/-- What the worker and the loop of `work` call. -/
inductive Method where
  | start | acquireLocks | enqueueScheduledJobs | heartbeat | stop
  deriving DecidableEq

def Method.program (env : Env) : Method → WorkerScheduler → Py WorkerScheduler
  | .start, s => s.start env
  | .acquireLocks, s => do
      let r ← s.acquireLocks env
      pure r.1
  | .enqueueScheduledJobs, s => s.enqueueScheduledJobs env
  | .heartbeat, s => do
      s.heartbeat
      pure s
  | .stop, s => s.stop

/-- A stopped scheduler may be started, and what is called of a started one, up to `stop`, is called
by its thread. -/
def methods (env : Env) : Methods WorkerScheduler Method World Event PyError where
  allowed s m := if m = .start then s.status = .stopped else s.status ≠ .stopped
  program := Method.program env

abbrev Schedulers (ι : Type) := Objects ι WorkerScheduler Method World Event PyError

/-- What can happen: a scheduler calls a method or takes its next step, time passes, or something else
happens that has nothing to do with the locks. -/
inductive Move (ι : Type) where
  | call (i : ι) (m : Method)
  | go (i : ι)
  | pass (d : Nat)
  | elsewhere (f : World → World) (h : ∀ w, (f w).locks = w.locks)

section Moves

variable {ι : Type} [DecidableEq ι]

def step (env : Env) (S : Schedulers ι) : Move ι → Schedulers ι
  | .call i m => S.call (methods env) i m
  | .go i => S.go i
  | .pass d => S.outside fun w => w.advance d
  | .elsewhere f _ => S.outside f

/-- The schedulers before they are started. -/
def created (queues : ι → List QueueName) (pid : ι → Nat) (interval : ι → Int) (w : World) :
    Schedulers ι where
  object i := WorkerScheduler.new (queues i) (pid i) (interval i)
  doing _ := none
  state := w
  log := []

end Moves

variable {ι : Type}

/-- Between `start` and `stop`, and nothing was raised in the thread. -/
structure Running (S : Schedulers ι) (i : ι) : Prop where
  alive : ¬ S.Raised i
  started : (S.object i).status ≠ .stopped
  going : ∀ p, S.doing i ≠ some (.stop, p)

/-- From the call of `start` to the end of `stop`. -/
structure Active (S : Schedulers ι) (i : ι) : Prop where
  alive : ¬ S.Raised i
  busy : (S.object i).status ≠ .stopped ∨ S.doing i ≠ none

/-! ## One scheduler for a queue -/

/-- At most one running scheduler looks after a queue. -/
def Exclusive (S : Schedulers ι) : Prop :=
  ∀ i j q, Running S i → Running S j → q ∈ (S.object i).registries → q ∈ (S.object j).registries →
    i = j

/-- No step of a scheduler changes a lock key, or its expiry, that another one has set. -/
def Respects [DecidableEq ι] (S : Schedulers ι) : Move ι → Prop
  | .go i => ∀ q v, S.state.locks.find? q = some v → v ≠ (S.object i).pid →
      (S.go i).state.locks.entry q = S.state.locks.entry q
  | _ => True

/-! ## Heartbeats in time -/

/-- No key that an active scheduler has set expires, and a scheduler that is started remembers no
lock. -/
def Timely (S : Schedulers ι) : Move ι → Prop
  | .pass d => ∀ i q t, Active S i → S.state.locks.find? q = some (S.object i).pid →
      S.state.locks.deadline q = some t → S.state.now + d < t
  | .call i .start => (S.object i).status = .stopped → (S.object i).locks = []
  | _ => True

/-! ## The contract of a scheduler -/

/-- User code leaves the lock keys alone. -/
def SameLocks (w w' : World) (_ : List Event) : Prop := w'.locks = w.locks

theorem commands_sameLocks {env : Env} (hU : UserCode env SameLocks) : Commands env SameLocks where
  same _ := rfl
  created _ _ := rfl
  taskScheduled _ _ _ := rfl
  called _ _ := rfl
  exec _ _ _ _ _ h := by cases h <;> rfl
  expire _ _ _ _ h := by cases h <;> rfl
  push _ _ _ _ := rfl
  schedule _ _ _ _ := rfl
  store _ _ := rfl
  user := hU

/-- The locks that the scheduler remembers are its own. -/
structure Owns (n : Nat) (s : WorkerScheduler) (w : World) : Prop where
  process : s.pid = n
  nodup : s.locks.Nodup
  own : ∀ q ∈ s.locks, w.locks.find? q = some n

/-- Keys of the process stay. -/
def KeepsOwn (pid : Nat) (w w' : World) : Prop :=
  ∀ q, w.locks.find? q = some pid → w'.locks.find? q = some pid

/-- Keys of other processes stay, with their expiry. -/
def KeepsOthers (pid : Nat) (w w' : World) : Prop :=
  ∀ q v, w.locks.find? q = some v → v ≠ pid → w'.locks.entry q = w.locks.entry q

theorem Owns.mono {pid : Nat} {s : WorkerScheduler} {w w' : World} (h : Owns pid s w)
    (hw : KeepsOwn pid w w') : Owns pid s w' :=
  ⟨h.process, h.nodup, fun q hq => hw q (h.own q hq)⟩

theorem KeepsOthers.keepsOwn {pid pid' : Nat} {w w' : World} (h : KeepsOthers pid w w')
    (hne : pid' ≠ pid) : KeepsOwn pid' w w' := by
  intro q hq
  unfold TtlMap.find?
  rw [h q pid' hq hne]
  exact hq

/-- The contracts. -/
def contract {pid : ι → Nat} (hpid : Function.Injective pid) :
    Contract ι WorkerScheduler Method World Event where
  rely i c c' := KeepsOwn (pid i) c.1 c'.1
  guar i m c c' := KeepsOthers (pid i) c.1 c'.1 ∧ (m ≠ .stop → KeepsOwn (pid i) c.1 c'.1)
  idle i s c := s.pid = pid i ∧
    (s.status ≠ .stopped → Owns (pid i) s c.1 ∧ s.registries = s.locks)
  during i m s c := s.pid = pid i ∧ (m = .start → s.status = .stopped) ∧
    (m = .start ∨ m = .stop ∨ (Owns (pid i) s c.1 ∧ s.registries = s.locks))
  refl _ _ _ h := h
  trans _ _ _ _ h h' q hq := h' q (h q hq)
  covers _ _ _ hij _ _ h := h.1.keepsOwn fun heq => hij (hpid heq.symm)
  idle_stable _ _ _ _ h hs := ⟨hs.1, fun hne => ⟨(hs.2 hne).1.mono h, (hs.2 hne).2⟩⟩
  during_stable _ _ _ _ _ h hs := ⟨hs.1, hs.2.1, hs.2.2.imp_right fun h' => h'.imp_right fun ho =>
    ⟨ho.1.mono h, ho.2⟩⟩
  during_kept _ m _ _ _ h hs := by
    refine ⟨hs.1, hs.2.1, hs.2.2.imp_right fun h' => ?_⟩
    by_cases hm : m = .stop
    · exact .inl hm
    · exact h'.imp_right fun ho => ⟨ho.1.mono (h.2 hm), ho.2⟩

section Keeping

variable {env : Env} {pid : ι → Nat} {hpid : Function.Injective pid} {i : ι} {m : Method}
  {s : WorkerScheduler}

abbrev side (hpid : Function.Injective pid) (i : ι) (m : Method) : Side World Event (ι × Event) :=
  (contract hpid).side i m

theorem owns_stable (s : WorkerScheduler) :
    Stable (side hpid i m).rely fun c => Owns (pid i) s c.1 :=
  fun _ _ h hs => hs.mono h

/-- A step that leaves all keys alone. -/
theorem guar_same {w w' : World} {t t' : List (ι × Event)} (h : w'.locks = w.locks) :
    (side hpid i m).guar (w, t) (w', t') := by
  refine ⟨fun q v _ _ => ?_, fun _ q hq => ?_⟩
  · exact congrArg (fun l : TtlMap QueueName Nat => l.entry q) h
  · dsimp only
    rw [h]
    exact hq

theorem owns_remember {w : World} {q : QueueName} (h : Owns (pid i) s w)
    (hq : w.locks.find? q = some (pid i)) : Owns (pid i) (s.remember q) w := by
  unfold WorkerScheduler.remember
  split
  · exact h
  · rename_i hnew
    refine ⟨h.process, ?_, fun q' hq' => ?_⟩
    · exact List.nodup_append.2 ⟨h.nodup, List.nodup_singleton q, fun a ha b hb => by
        rintro rfl
        exact hnew (List.mem_singleton.1 hb ▸ ha)⟩
    · rcases List.mem_append.1 hq' with hq' | hq'
      · exact h.own q' hq'
      · rw [List.mem_singleton.1 hq']
        exact hq

/-! ### Methods -/

theorem acquire_triple (q : QueueName) (hs : s.pid = pid i) (e : Int) :
    (side hpid i m).Triple (fun c => Owns (pid i) s c.1) (SchedulerLock.acquire q s.pid e)
      (fun b c => Owns (pid i) s c.1 ∧ (b = true → c.1.locks.find? q = some (pid i)))
      fun (_ : PyError) _ => True := by
  refine Side.Triple.command (owns_stable s) (fun b => ?_) fun w t hw => ?_
  · refine Side.Stable.and (owns_stable s) (Side.Stable.imp fun _ => ?_)
    exact fun c c' h hq => h q hq
  · unfold World.setLockNx
    cases hc : w.locks.contains q with
    | true => exact ⟨guar_same rfl, hw, fun h => by cases h⟩
    | false =>
        have hfree : w.locks.find? q = none := (TtlMap.contains_eq_false_iff _ _).1 hc
        have hset : ∀ d q', q' ≠ q →
            (w.locks.set q s.pid d).find? q' = w.locks.find? q' := fun d q' hne => by
          rw [TtlMap.find?_set, if_neg hne]
        have hown : ∀ d q', w.locks.find? q' = some (pid i) →
            (w.locks.set q s.pid d).find? q' = some (pid i) := by
          intro d q' hq'
          rw [hset d q' fun heq => ?_]
          · exact hq'
          · rw [heq, hfree] at hq'
            cases hq'
        refine ⟨⟨fun q' v hq' _ => ?_, fun _ q' hq' => hown _ q' hq'⟩, ?_, fun _ => ?_⟩
        · refine Function.update_of_ne (fun heq => ?_) ..
          rw [heq, hfree] at hq'
          cases hq'
        · exact ⟨hw.process, hw.nodup, fun q' hq' => hown _ q' (hw.own q' hq')⟩
        · show (w.locks.set q s.pid _).find? q = some (pid i)
          rw [TtlMap.find?_set, if_pos rfl, hs]

/-- What `tryLocks` leaves of the object. -/
structure SameButLocks (s s' : WorkerScheduler) : Prop where
  status : s'.status = s.status
  process : s'.pid = s.pid

theorem tryLocks_triple (s : WorkerScheduler) (l : List QueueName) :
    (side hpid i m).Triple (fun c => Owns (pid i) s c.1) (s.tryLocks l)
      (fun r c => Owns (pid i) r.1 c.1 ∧ SameButLocks s r.1) fun (_ : PyError) _ => True := by
  induction l generalizing s with
  | nil => exact Side.Triple.ret (owns_stable s) fun _ hc => ⟨hc, rfl, rfl⟩
  | cons q l ih =>
      intro c hc
      refine (acquire_triple q hc.process _ c hc).bind fun acquired c hc => ?_
      obtain ⟨hc, hacquired⟩ := hc
      have hnext : Owns (pid i) (if acquired then s.remember q else s) c.1 := by
        split
        · rename_i h
          exact owns_remember hc (hacquired h)
        · exact hc
      have hsame : SameButLocks s (if acquired then s.remember q else s) := by
        unfold WorkerScheduler.remember
        repeat' split
        all_goals exact ⟨rfl, rfl⟩
      refine (ih _ c hnext).bind fun r c hr => ?_
      refine Side.Triple.ret (Side.Stable.and (owns_stable r.1) (Side.Stable.const _))
        (fun _ h => ?_) c hr
      exact ⟨h.1, h.2.status.trans hsame.status, h.2.process.trans hsame.process⟩

/-- After `_acquire_locks` the scheduler looks after the queues whose locks it remembers. -/
theorem acquireLocks_triple (s : WorkerScheduler) :
    (side hpid i m).Triple (fun c => Owns (pid i) s c.1) (s.acquireLocks env)
      (fun r c => (Owns (pid i) r.1 c.1 ∧ r.1.registries = r.1.locks) ∧ SameButLocks s r.1)
      fun _ _ => True := by
  unfold WorkerScheduler.acquireLocks
  refine (tryLocks_triple s s.queues).bind fun r => ?_
  obtain ⟨s', successfulLocks⟩ := r
  have hstable : Stable (side hpid i m).rely fun c => Owns (pid i) s' c.1 ∧ SameButLocks s s' :=
    Side.Stable.and (owns_stable s') (Side.Stable.const _)
  have hread : ∀ now : Int, Stable (side hpid i m).rely
      fun c => (Owns (pid i) s' c.1 ∧ SameButLocks s s') ∧ now = now :=
    fun now => Side.Stable.and hstable (Side.Stable.const _)
  refine (Side.Triple.read hstable (fun now => hread now) (fun c _ => guar_same rfl)
    fun w t hw => ⟨hw, rfl⟩).bind fun now => ?_
  have hqueues : (side hpid i m).Triple (fun c => Owns (pid i) s' c.1 ∧ SameButLocks s s')
      (Prog.forEach s'.locks fun q => do
        let _ ← getQueue env q
        pure ()) (fun _ c => Owns (pid i) s' c.1 ∧ SameButLocks s s') fun _ _ => True := by
    refine Side.Triple.forEach hstable _ fun q _ => ?_
    unfold getQueue
    cases env.queues q with
    | none => exact Side.Triple.raise hstable fun _ _ => trivial
    | some isAsync => exact Side.Triple.ret hstable fun _ hc => hc
  refine (hqueues.pre fun c hc => hc.1).bind fun _ => ?_
  exact Side.Triple.ret hstable fun _ hc =>
    ⟨⟨⟨hc.1.process, hc.1.nodup, hc.1.own⟩, rfl⟩, hc.2.status, hc.2.process⟩

theorem enqueueScheduledJobs_triple (hU : UserCode env SameLocks) (s : WorkerScheduler) :
    (side hpid i m).Triple (fun c => Owns (pid i) s c.1) (s.enqueueScheduledJobs env)
      (fun s' c => Owns (pid i) s c.1 ∧ s' = { s with status := .started }) fun _ _ => True := by
  refine ((commands_sameLocks hU).enqueueScheduledJobs_steps s).triple (owns_stable s)
    (fun _ _ _ => trivial) fun w t w' es hw h => ⟨guar_same h, hw.mono fun q hq => ?_⟩
  rw [show w'.locks = w.locks from h]
  exact hq

theorem heartbeat_triple (s : WorkerScheduler) :
    (side hpid i m).Triple (fun c => Owns (pid i) s c.1) s.heartbeat
      (fun _ c => Owns (pid i) s c.1) fun (_ : PyError) _ => True := by
  refine Side.Triple.forEach (owns_stable s) _ fun q hq => ?_
  refine Side.Triple.write (owns_stable s) (owns_stable s) fun w t hw => ?_
  have hfind : ∀ q' d, (w.locks.expireAt q d).find? q' = w.locks.find? q' :=
    fun q' d => TtlMap.find?_expireAt _ _ _ _
  refine ⟨⟨fun q' v hq' hv => ?_, fun _ q' hq' => (hfind q' _).trans hq'⟩, ?_⟩
  · refine TtlMap.entry_setDeadline_of_ne _ _ fun heq => hv ?_
    rw [heq, hw.own q hq] at hq'
    exact (Option.some_inj.1 hq').symm
  · exact ⟨hw.process, hw.nodup, fun q' hq' => (hfind q' _).trans (hw.own q' hq')⟩

/-- Keys that are deleted one after the other are own keys until then. -/
theorem releaseLocks_triple (l : List QueueName) (hl : l.Nodup) :
    (side hpid i .stop).Triple (fun c => ∀ q ∈ l, c.1.locks.find? q = some (pid i))
      (Prog.forEach l SchedulerLock.release) (fun _ _ => True) fun (_ : PyError) _ => True := by
  have hstable : ∀ l : List QueueName, Stable (side hpid i .stop).rely
      fun c => ∀ q ∈ l, c.1.locks.find? q = some (pid i) :=
    fun l c c' h hc q hq => h q (hc q hq)
  induction l with
  | nil => exact Side.Triple.ret (hstable []) fun _ _ => trivial
  | cons q l ih =>
      obtain ⟨hnew, hl⟩ := List.nodup_cons.1 hl
      refine Side.Triple.bind (Q := fun _ c => ∀ q ∈ l, c.1.locks.find? q = some (pid i)) ?_
        fun _ => ih hl
      refine Side.Triple.write (hstable (q :: l)) (hstable l) fun w t hw => ?_
      refine ⟨⟨fun q' v hq' hv => ?_, fun h => (h rfl).elim⟩, fun q' hq' => ?_⟩
      · refine TtlMap.entry_erase_of_ne _ fun heq => hv ?_
        rw [heq, hw q List.mem_cons_self] at hq'
        exact (Option.some_inj.1 hq').symm
      · have hne : q' ≠ q := fun heq => hnew (heq ▸ hq')
        show (w.locks.erase q).find? q' = some (pid i)
        rw [TtlMap.find?_erase, if_neg hne]
        exact hw q' (List.mem_cons_of_mem q hq')

/-- Every method keeps the contract; `start`, where no lock is remembered. -/
theorem Method.keeps (hU : UserCode env SameLocks) {c : Config World (ι × Event)}
    (hallowed : (methods env).allowed s m = true) (hidle : (contract hpid).idle i s c)
    (hstart : m = .start → s.locks = []) :
    (contract hpid).during i m s c ∧ (contract hpid).Keeps i m (m.program env s) c := by
  obtain ⟨hprocess, howns⟩ := hidle
  have hstopped : m = .start → s.status = .stopped := by
    rintro rfl
    simpa [methods] using hallowed
  have hrunning : m ≠ .start → Owns (pid i) s c.1 ∧ s.registries = s.locks := by
    intro hm
    refine howns ?_
    simpa [methods, hm] using hallowed
  refine ⟨⟨hprocess, hstopped, ?_⟩, ?_⟩
  · by_cases hm : m = .start
    · exact .inl hm
    · exact .inr (.inr (hrunning hm))
  · unfold Contract.Keeps
    cases m with
    | start =>
        have hempty : Owns (pid i) s c.1 := by
          refine ⟨hprocess, ?_, ?_⟩ <;> rw [hstart rfl]
          · exact List.nodup_nil
          · exact fun q hq => (List.not_mem_nil hq).elim
        refine (acquireLocks_triple s c hempty).bind fun r c hr => ?_
        obtain ⟨s', successfulLocks⟩ := r
        have hstable : Stable (side hpid i .start).rely
            fun c => (Owns (pid i) s' c.1 ∧ s'.registries = s'.locks) ∧ SameButLocks s s' :=
          Side.Stable.and (Side.Stable.and (owns_stable s') (Side.Stable.const _))
            (Side.Stable.const _)
        dsimp only
        split
        · exact Side.Triple.ret hstable (fun _ h => ⟨h.1.1.process, fun _ => h.1⟩) c hr
        · refine Side.Triple.ret hstable (fun _ h => ⟨h.1.1.process, fun _ => ⟨?_, h.1.2⟩⟩) c hr
          exact ⟨h.1.1.process, h.1.1.nodup, h.1.1.own⟩
    | acquireLocks =>
        obtain ⟨howns, -⟩ := hrunning (by decide)
        refine (acquireLocks_triple s c howns).bind fun r c hr => ?_
        refine Side.Triple.ret (Side.Stable.and (Side.Stable.and (owns_stable r.1)
          (Side.Stable.const _)) (Side.Stable.const _)) (fun _ h => ?_) c hr
        exact ⟨h.1.1.process, fun _ => h.1⟩
    | enqueueScheduledJobs =>
        obtain ⟨howns, hregistries⟩ := hrunning (by decide)
        refine (enqueueScheduledJobs_triple hU s c howns).mono (fun s' c h => ?_) fun _ _ h => h
        obtain ⟨h, rfl⟩ := h
        exact ⟨h.process, fun _ => ⟨⟨h.process, h.nodup, h.own⟩, hregistries⟩⟩
    | heartbeat =>
        obtain ⟨howns, hregistries⟩ := hrunning (by decide)
        refine (heartbeat_triple s c howns).bind fun _ c hc => ?_
        exact Side.Triple.ret (owns_stable s)
          (fun _ h => ⟨h.process, fun _ => ⟨h, hregistries⟩⟩) c hc
    | stop =>
        obtain ⟨howns, -⟩ := hrunning (by decide)
        refine (releaseLocks_triple s.locks howns.nodup c howns.own).bind fun _ c hc => ?_
        exact Side.Triple.ret (Side.Stable.const True)
          (fun _ _ => ⟨hprocess, fun h => (h rfl).elim⟩) c hc

end Keeping

/-! ## Runs -/

section Runs

variable [DecidableEq ι] {env : Env} {pid : ι → Nat} {S : Schedulers ι}

theorem sound_step (hpid : Function.Injective pid) (hU : UserCode env SameLocks)
    (h : S.Sound (contract hpid)) (o : Move ι) (ho : Timely S o) :
    (step env S o).Sound (contract hpid) := by
  cases o with
  | call i m =>
      refine h.call fun hnone hallowed hidle => Method.keeps hU hallowed hidle ?_
      rintro rfl
      refine ho ?_
      simpa [methods] using hallowed
  | go i => exact (h.go i).1
  | pass d =>
      have hprocess : ∀ i, ¬ S.Raised i → (S.object i).pid = pid i := by
        intro i hr
        cases hi : S.doing i with
        | none => exact ((h i).of_none hi).1
        | some e => exact ((h i).of_some hi hr).1.1
      have hkeeps : ∀ i, Active S i → KeepsOwn (pid i) S.state (S.state.advance d) := by
        intro i hi q hq
        have htimely := fun t => ho i q t hi (hq.trans (congrArg some (hprocess i hi.alive).symm))
        show (S.state.locks.purge (S.state.now + d)).find? q = some (pid i)
        rw [TtlMap.find?_purge, if_pos fun t ht => htimely t ht]
        exact hq
      refine h.outside (fun i hi => ?_) fun i m p hi hr => ?_
      · have hidle := (h i).of_none hi
        refine ⟨hidle.1, fun hne => ?_⟩
        have hactive : Active S i := by
          refine ⟨?_, .inl hne⟩
          rintro ⟨m, x, hx⟩
          rw [hi] at hx
          cases hx
        exact ⟨(hidle.2 hne).1.mono (hkeeps i hactive), (hidle.2 hne).2⟩
      · refine hkeeps i ⟨hr, .inr ?_⟩
        rw [hi]
        simp
  | elsewhere f hf =>
      have hkeeps : ∀ i, KeepsOwn (pid i) S.state (f S.state) := by
        intro i q hq
        rw [hf]
        exact hq
      refine h.outside (fun i hi => ?_) fun i m p _ _ => hkeeps i
      exact (contract hpid).idle_stable i _ S.config _ (hkeeps i) ((h i).of_none hi)

omit [DecidableEq ι] in
/-- A running scheduler owns the locks of the queues that it looks after. -/
theorem Running.owns {hpid : Function.Injective pid} (h : S.Sound (contract hpid)) {i : ι}
    (hi : Running S i) : Owns (pid i) (S.object i) S.state ∧
      (S.object i).registries = (S.object i).locks := by
  cases hd : S.doing i with
  | none => exact ((h i).of_none hd).2 hi.started
  | some e =>
      obtain ⟨m, p⟩ := e
      obtain ⟨-, hstart, hduring⟩ := ((h i).of_some hd hi.alive).1
      rcases hduring with hm | hm | howns
      · exact (hi.started (hstart hm)).elim
      · subst hm
        exact (hi.going p hd).elim
      · exact howns

omit [DecidableEq ι] in
theorem exclusive_of_sound {hpid : Function.Injective pid} (h : S.Sound (contract hpid)) :
    Exclusive S := by
  intro i j q hi hj hqi hqj
  obtain ⟨howns, hregistries⟩ := hi.owns h
  obtain ⟨howns', hregistries'⟩ := hj.owns h
  have hkey := howns.own q (hregistries ▸ hqi)
  have hkey' := howns'.own q (hregistries' ▸ hqj)
  rw [hkey] at hkey'
  exact hpid (Option.some_inj.1 hkey')

theorem respects_of_sound {hpid : Function.Injective pid} (h : S.Sound (contract hpid))
    (o : Move ι) : Respects S o := by
  cases o with
  | go i =>
      intro q v hq hv
      rcases (h.go i).2 with hsame | ⟨m, p, hd, hr, hguar⟩
      · have hstate : (S.go i).state = S.state := congrArg Prod.fst hsame
        rw [hstate]
      · refine hguar.1 q v hq fun heq => hv ?_
        rw [((h i).of_some hd hr).1.1]
        exact heq
  | call i m => trivial
  | pass d => trivial
  | elsewhere f hf => trivial

/-- **At most one running scheduler looks after a queue**, and none changes a key of another, in every
run in which no key of an active scheduler expires and no scheduler is started that remembers
locks. -/
theorem registries_exclusive (hpid : Function.Injective pid) (hU : UserCode env SameLocks)
    (queues : ι → List QueueName) (interval : ι → Int) (w : World) {l : List (Move ι)}
    (hl : Run.Meets (step env) Timely (created queues pid interval w) l) :
    Run.Along (step env) Exclusive (created queues pid interval w) l ∧
      Run.Meets (step env) Respects (created queues pid interval w) l := by
  have hcreated : (created queues pid interval w).Sound (contract hpid) :=
    fun i => ⟨rfl, fun h => (h rfl).elim⟩
  have hrun := Run.along_and_meets_of_step (P := fun S => S.Sound (contract hpid))
    (fun S o hS ho => ⟨sound_step hpid hU hS o ho, respects_of_sound hS o⟩) hcreated hl
  exact ⟨hrun.1.mono fun S hS => exclusive_of_sound hS, hrun.2⟩

end Runs

/-! ## A sample -/

/-- The processes of two schedulers. -/
def samplePid (b : Bool) : Nat := if b then 1 else 2

theorem samplePid_injective : Function.Injective samplePid := Bool.injective_iff.2 (by decide)

/-- Two schedulers for the queue `q`, with an interval of 60 seconds. -/
def sampleSchedulers : Schedulers Bool :=
  created (fun _ => ["q"]) samplePid (fun _ => 60) (World.init 0)

/-- A scheduler starts. -/
def starts (b : Bool) : List (Move Bool) := .call b .start :: List.replicate 3 (.go b)

/-- The key of a started scheduler is good for two minutes. -/
theorem sample_timely : Run.Meets (step Sample.env) Timely sampleSchedulers
    (starts true ++ [.pass 119999999] ++ starts false) := by
  have hlocks : (Run.last (step Sample.env) sampleSchedulers (starts true)).state.locks
      = TtlMap.empty.set "q" 1 (some 120000000) := rfl
  refine Run.meets_append.2 ⟨Run.meets_append.2 ⟨⟨fun _ => rfl, trivial, trivial, trivial, trivial⟩,
    fun b q t _ hq ht => ?_, trivial⟩, fun _ => rfl, trivial, trivial, trivial, trivial⟩
  rw [hlocks, TtlMap.deadline_set] at ht
  split at ht
  · cases ht
    exact (by decide : (0 : Int) + 119999999 < 120000000)
  · cases ht

theorem sample_exclusive :
    Run.Along (step Sample.env) Exclusive sampleSchedulers
        (starts true ++ [.pass 119999999] ++ starts false) ∧
      Run.Meets (step Sample.env) Respects sampleSchedulers
        (starts true ++ [.pass 119999999] ++ starts false) :=
  registries_exclusive samplePid_injective (Sample.userCode _) (fun _ => ["q"]) (fun _ => 60)
    (World.init 0) sample_timely

/-- The key of the first scheduler expires, and the second one acquires it: both look after the queue,
and a heartbeat of the first one prolongs the key of the second. -/
theorem not_exclusive :
    (¬ ∀ l, Run.Along (step Sample.env) Exclusive sampleSchedulers l) ∧
      ¬ ∀ l, Run.Meets (step Sample.env) Respects sampleSchedulers l := by
  let late := starts true ++ [.pass 120000000] ++ starts false ++ [.pass 1000000]
  let S := Run.last (step Sample.env) sampleSchedulers late
  have hdoing : ∀ b, S.doing b = none := by
    intro b
    cases b <;> rfl
  have hrunning : ∀ b, Running S b := by
    intro b
    refine ⟨?_, ?_, fun p hp => ?_⟩
    · rintro ⟨m, x, hx⟩
      rw [hdoing b] at hx
      cases hx
    · cases b <;> decide +kernel
    · rw [hdoing b] at hp
      cases hp
  constructor
  · intro h
    have hexclusive : Exclusive S := (h late).last
    have hsame := hexclusive true false "q" (hrunning true) (hrunning false)
      (by decide +kernel) (by decide +kernel)
    cases hsame
  · intro h
    let S' := step Sample.env S (.call true .heartbeat)
    have hmeets := Run.meets_append.1 (h (late ++ [.call true .heartbeat, .go true]))
    have hrespects : Respects S' (.go true) := hmeets.2.2.1
    have hkey := hrespects "q" 2 (by decide +kernel) (by decide +kernel)
    have hchanged : (S'.go true).state.locks.entry "q" ≠ S'.state.locks.entry "q" := by
      decide +kernel
    exact hchanged hkey

end DailyScheduler.Locks
