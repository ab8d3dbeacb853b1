import DailyScheduler.Concurrency.Dequeue
import DailyScheduler.Lib.Protocol
import DailyScheduler.Model.Sample
import DailyScheduler.Model.Worker
import Mathlib.Tactic.Ring

set_option autoImplicit false

/-! # Enqueuing and dequeuing lose nothing and deliver nothing twice

Any number of clients run `enqueue_job`, any number of workers run `dequeue_any`, and the
clock moves on, all interleaved step by step. Every name that was put into a queue is in
exactly one queued registry, or was popped exactly once; it is given to at most one worker,
and no name is forgotten. The record of a job is written before its name is queued, so
`compact` never finds a queued name without a record.

Where a name is follows from an invariant that all parties keep. That a call does not end before it
has added its name, or with a name that it popped and does not return, is a matter of each party's
own events (`Lib/Protocol.lean`).
-/

namespace DailyScheduler.Delivery

open AtomicProg

/-! ## The parties -/

/-- A call of `enqueue_job`. -/
structure Request where
  queue : Queue
  job : JobModel
  atFront : Bool

/-- What a party does: dequeue some number of times, or enqueue some jobs. -/
inductive Role where
  | worker (queues : List Queue) (timeout : Option Int) (rounds fuel : Nat)
  | client (requests : List Request)

/-- The requests of a party. -/
def Role.requests : Role → List Request
  | .worker _ _ _ _ => []
  | .client rs => rs

def Role.program (env : Env) : Role → Py Unit
  | .worker queues timeout rounds fuel =>
      Prog.forEach (List.replicate rounds ()) fun _ => do
        let job ← Worker.dequeueJob env queues timeout fuel
        Prog.emit (.dequeueReturned (job.map fun p => p.1.name))
  | .client rs =>
      Prog.forEach rs fun r => do
        let _ ← r.queue.enqueueJob env r.job r.atFront
        Prog.emit (.enqueueReturned r.job.name)

/-- Time passes. -/
def clock (ticks : List Nat) : Py Unit := Prog.forEach ticks fun d => Prog.write (·.advance d)

variable {κ : Type}

/-- The parties and the clock, in the world `w`. -/
def pool (env : Env) (roles : κ → Role) (ticks : List Nat) (w : World) :
    Pool (Option κ) World Event PyError Unit where
  threads := fun
    | none => clock ticks
    | some k => (roles k).program env
  state := w
  log := []

/-- The names a party enqueues. -/
def owns (roles : κ → Role) : Option κ → JobName → Prop
  | none, _ => False
  | some k, n => ∃ r ∈ (roles k).requests, r.job.name = n

/-- The queues are asynchronous; every job is enqueued at most once; no record expires while
the clock runs; every record that is or will be queued deserializes. -/
structure Setup (roles : κ → Role) (ticks : List Nat) (w : World) : Prop where
  async : ∀ k, ∀ r ∈ (roles k).requests, r.queue.isAsync = true
  once : ∀ k, ((roles k).requests.map fun r => r.job.name).Nodup
  oneParty : ∀ i j n, owns roles i n → owns roles j n → i = j
  notQueued : ∀ i n q, owns roles i n → ¬ w.inRegistry q .queued n
  queuedOnce : ∀ q q' n, w.inRegistry q .queued n → w.inRegistry q' .queued n → q = q'
  records : ∀ k, ∀ r ∈ (roles k).requests, r.job.saveAll = true ∨ w.loadable r.job.name
  queuedRecords : ∀ q n, w.inRegistry q .queued n → w.loadable n
  lasting : ∀ n d, w.jobs.deadline n = some d → w.now + ticks.sum < d

/-! ## Counting events -/

/-- The events of the log that satisfy `p`. -/
def count (p : Event → Bool) (log : List (Option κ × Event)) : Nat :=
  log.countP fun x => p x.2

def isEnqueue (n : JobName) : Event → Bool
  | .enqueued _ m => m = n
  | _ => false

def isPop (n : JobName) : Event → Bool
  | .popped _ m => m = n
  | _ => false

def isDelivery (n : JobName) : Event → Bool
  | .delivered m => m = n
  | _ => false

theorem count_snoc (p : Event → Bool) (l : List (Option κ × Event)) (i : Option κ) (e : Event) :
    count p (l ++ [(i, e)]) = count p l + if p e then 1 else 0 := by
  rw [count, List.countP_append, List.countP_singleton, count]

theorem count_pos {p : Event → Bool} {log : List (Option κ × Event)} {i : Option κ} {e : Event}
    (h : (i, e) ∈ log) (he : p e = true) : 1 ≤ count p log :=
  List.countP_pos_iff.2 ⟨(i, e), h, he⟩

/-- Two parties did not both do what happened only once. -/
theorem eq_of_count_le_one {p : Event → Bool} {log : List (Option κ × Event)} {i j : Option κ}
    {e e' : Event} (hc : count p log ≤ 1) (hi : (i, e) ∈ log) (hj : (j, e') ∈ log)
    (he : p e = true) (he' : p e' = true) : i = j := by
  induction log with
  | nil => cases hi
  | cons x l ih =>
      have hx : count p (x :: l) = count p l + (if p x.2 then 1 else 0) := List.countP_cons ..
      rcases List.mem_cons.1 hi with rfl | hi'
      · rcases List.mem_cons.1 hj with hj | hj'
        · exact (congrArg Prod.fst hj).symm
        · have := count_pos hj' he'
          simp only [he, if_true] at hx
          omega
      · rcases List.mem_cons.1 hj with rfl | hj'
        · have := count_pos hi' he
          simp only [he', if_true] at hx
          omega
        · exact ih (by omega) hi' hj'

/-! ## The invariant -/

/-- The name is in exactly one queued registry. -/
def InOneQueue (w : World) (n : JobName) : Prop :=
  ∃ q, ∀ q', w.inRegistry q' .queued n ↔ q' = q

def InNoQueue (w : World) (n : JobName) : Prop := ∀ q, ¬ w.inRegistry q .queued n

/-- The name was queued at the start or has been enqueued since. -/
def Entered (w : World) (n : JobName) (log : List (Option κ × Event)) : Prop :=
  ¬ InNoQueue w n ∨ count (isEnqueue n) log = 1

/-- Where a name is: not enqueued yet; in one queue, never popped; or popped once. -/
def Placed (w₀ : World) (n : JobName) (c : Config World (Option κ × Event)) : Prop :=
  (¬ Entered w₀ n c.2 ∧ InNoQueue c.1 n ∧ count (isPop n) c.2 = 0) ∨
  (Entered w₀ n c.2 ∧ InOneQueue c.1 n ∧ count (isPop n) c.2 = 0) ∨
  (Entered w₀ n c.2 ∧ InNoQueue c.1 n ∧ count (isPop n) c.2 = 1)

/-- The invariant of all parties; `w₀` is the first world, `T` the last moment. -/
structure Inv (w₀ : World) (T : Int) (c : Config World (Option κ × Event)) : Prop where
  now : c.1.now ≤ T
  lasting : ∀ n d, c.1.jobs.deadline n = some d → T < d
  once : ∀ n, count (isEnqueue n) c.2 ≤ 1
  placed : ∀ n, Placed w₀ n c
  records : ∀ n, Entered w₀ n c.2 → c.1.loadable n
  delivered : ∀ i n, (i, .delivered n) ∈ c.2 → ∃ q, (i, .popped q n) ∈ c.2
  deliveredOnce : ∀ n, count (isDelivery n) c.2 ≤ 1
  noneDropped : ∀ i n, (i, .dropped n) ∉ c.2

/-- What a step of party `i` may do. -/
structure Guar (roles : κ → Role) (w₀ : World) (T : Int) (i : Option κ)
    (c c' : Config World (Option κ × Event)) : Prop where
  inv : Inv w₀ T c → Inv w₀ T c'
  loadable : Inv w₀ T c → ∀ n, c.1.loadable n → c'.1.loadable n
  now : i ≠ none → c'.1.now = c.1.now
  log : ∃ es : List Event, c'.2 = c.2 ++ es.map (fun e => (i, e)) ∧
    ∀ q n, .enqueued q n ∈ es → owns roles i n

variable {roles : κ → Role} {w₀ : World} {T : Int} {i : Option κ}

theorem Inv.count_isPop_le {c : Config World (Option κ × Event)} (h : Inv w₀ T c) (n : JobName) :
    count (isPop n) c.2 ≤ 1 := by
  rcases h.placed n with ⟨-, -, hp⟩ | ⟨-, -, hp⟩ | ⟨-, -, hp⟩ <;> omega

/-- A popped name has a record. -/
theorem Inv.loadable_of_popped {c : Config World (Option κ × Event)} (h : Inv w₀ T c)
    {q : QueueName} {n : JobName} (hp : (i, .popped q n) ∈ c.2) : c.1.loadable n := by
  have h1 : 1 ≤ count (isPop n) c.2 := count_pos hp (by simp [isPop])
  rcases h.placed n with ⟨-, -, h0⟩ | ⟨-, -, h0⟩ | ⟨he, -⟩
  · omega
  · omega
  · exact h.records n he

/-- A queued name has a record. -/
theorem Inv.loadable_of_queued {c : Config World (Option κ × Event)} (h : Inv w₀ T c)
    {q : QueueName} {n : JobName} (hq : c.1.inRegistry q .queued n) : c.1.loadable n := by
  rcases h.placed n with ⟨-, h0, -⟩ | ⟨he, -⟩ | ⟨-, h0, -⟩
  · exact absurd hq (h0 q)
  · exact h.records n he
  · exact absurd hq (h0 q)

/-! ## The steps -/

theorem Guar.refl (c : Config World (Option κ × Event)) : Guar roles w₀ T i c c where
  inv := id
  loadable := fun _ _ h => h
  now := fun _ => rfl
  log := ⟨[], by simp, by simp⟩

/-- A step that leaves the queued registries and the log alone, removes no record and gives
no key a deadline. -/
theorem Guar.of_state {w w' : World} {t : List (Option κ × Event)} (hnow : w'.now = w.now)
    (hreg : ∀ q n, w'.inRegistry q .queued n ↔ w.inRegistry q .queued n)
    (hdl : ∀ n d, w'.jobs.deadline n = some d → w.jobs.deadline n = some d)
    (hload : ∀ n, w.loadable n → w'.loadable n) : Guar roles w₀ T i (w, t) (w', t) where
  inv := fun h =>
    { now := hnow ▸ h.now
      lasting := fun n d hd => h.lasting n d (hdl n d hd)
      once := h.once
      placed := fun n => by
        have := h.placed n
        simpa only [Placed, InOneQueue, InNoQueue, hreg] using this
      records := fun n he => hload n (h.records n he)
      delivered := h.delivered
      deliveredOnce := h.deliveredOnce
      noneDropped := h.noneDropped }
  loadable := fun _ => hload
  now := fun _ => hnow
  log := ⟨[], by simp, by simp⟩

/-- No record expires up to `T`. -/
theorem loadable_advance {w : World} {d : Nat} (hT : w.now + d ≤ T)
    (hl : ∀ n e, w.jobs.deadline n = some e → T < e) {n : JobName} (hn : w.loadable n) :
    (w.advance d).loadable n := by
  obtain ⟨v, hv, hc⟩ := hn
  refine ⟨v, ?_, hc⟩
  simp only [World.advance, TtlMap.find?_purge]
  rw [if_pos, hv]
  intro e he
  exact lt_of_le_of_lt hT (hl n e he)

/-- The clock moves on, but not past `T`. -/
theorem guar_advance {w : World} {t : List (Option κ × Event)} {d : Nat}
    (hT : w.now + d ≤ T) : Guar roles w₀ T none (w, t) (w.advance d, t) where
  inv := fun h =>
    { now := hT
      lasting := fun n e he => by
        simp only [World.advance, TtlMap.deadline_purge, Option.filter_eq_some_iff] at he
        exact h.lasting n e he.1
      once := h.once
      placed := h.placed
      records := fun n he => loadable_advance hT h.lasting (h.records n he)
      delivered := h.delivered
      deliveredOnce := h.deliveredOnce
      noneDropped := h.noneDropped }
  loadable := fun h n hn => loadable_advance hT h.lasting hn
  now := fun hi => absurd rfl hi
  log := ⟨[], by simp, by simp⟩

/-- The pipeline of `enqueue_job`, for a name that was not enqueued yet. -/
theorem guar_push {w : World} {t : List (Option κ × Event)} {q : QueueName} {n : JobName}
    {s : Int} (hn : InNoQueue w₀ n) (h0 : count (isEnqueue n) t = 0) (hl : w.loadable n)
    (ho : owns roles i n) :
    Guar roles w₀ T i (w, t)
      ((w.zrem q .scheduled n).zadd q .queued n s, t ++ [(i, .enqueued q n)]) where
  inv := by
    intro h
    have hplace : InNoQueue w n ∧ count (isPop n) t = 0 := by
      rcases h.placed n with ⟨-, h1, h2⟩ | ⟨he, -⟩ | ⟨he, -⟩
      · exact ⟨h1, h2⟩
      · rcases he with he | he
        · exact absurd hn he
        · simp only at he; omega
      · rcases he with he | he
        · exact absurd hn he
        · simp only at he; omega
    have hreg : ∀ q' m, ((w.zrem q .scheduled n).zadd q .queued n s).inRegistry q' .queued m
        ↔ (q' = q ∧ m = n) ∨ w.inRegistry q' .queued m := by
      intro q' m
      rw [World.inRegistry_zadd, World.inRegistry_zrem]
      simp
    have henq : ∀ m, count (isEnqueue m) (t ++ [(i, Event.enqueued q n)])
        = count (isEnqueue m) t + if n = m then 1 else 0 := by
      intro m
      rw [count_snoc]
      simp [isEnqueue]
    have hpop : ∀ m, count (isPop m) (t ++ [(i, Event.enqueued q n)]) = count (isPop m) t := by
      intro m
      rw [count_snoc]
      simp [isPop]
    have hentered : ∀ m, Entered w₀ m (t ++ [(i, Event.enqueued q n)])
        ↔ m = n ∨ Entered w₀ m t := by
      intro m
      unfold Entered
      rw [henq]
      by_cases hm : m = n
      · subst hm; simp [h0]
      · simp [hm, Ne.symm hm]
    refine
      { now := h.now
        lasting := h.lasting
        once := fun m => ?_
        placed := fun m => ?_
        records := fun m he => ?_
        delivered := fun k m hk => ?_
        deliveredOnce := fun m => ?_
        noneDropped := fun k m hk => ?_ }
    · have := h.once m
      simp only [henq]
      split
      · rename_i hm; subst hm; omega
      · exact this
    · unfold Placed InOneQueue InNoQueue
      simp only [hreg, hpop, hentered]
      by_cases hm : m = n
      · subst hm
        refine Or.inr (Or.inl ⟨Or.inl rfl, ⟨q, fun q' => ?_⟩, hplace.2⟩)
        have := hplace.1 q'
        simp [this]
      · have := h.placed m
        simpa only [Placed, InOneQueue, InNoQueue, hm, and_false, false_or] using this
    · rcases (hentered m).1 he with rfl | he'
      · exact hl
      · exact h.records m he'
    · obtain ⟨q', hq'⟩ := h.delivered k m (by simpa using hk)
      exact ⟨q', by simp [hq']⟩
    · have := h.deliveredOnce m
      rw [count_snoc]
      simpa [isDelivery] using this
    · exact h.noneDropped k m (by simpa using hk)
  loadable := fun _ _ h => h
  now := fun _ => rfl
  log := ⟨[.enqueued q n], rfl, by
    intro q' m hm
    simp only [List.mem_singleton, Event.enqueued.injEq] at hm
    exact hm.2 ▸ ho⟩

/-- A pop takes the name out of the one queue it is in. -/
theorem guar_pop {w w' : World} {t : List (Option κ × Event)} {q : QueueName} {n : JobName}
    (hp : w.zpopmin q .queued = (some n, w')) :
    Guar roles w₀ T i (w, t) (w', t ++ [(i, .popped q n)]) := by
  obtain ⟨z, rfl, hq, hscore⟩ := World.zpopmin_some hp
  have hreg : ∀ q' m, (w.setRegistry q .queued z).inRegistry q' .queued m
      ↔ ¬ (q' = q ∧ m = n) ∧ w.inRegistry q' .queued m := by
    intro q' m
    rw [World.inRegistry_iff, World.inRegistry_iff, hscore]
    split <;> simp_all
  refine ⟨fun h => ?_, fun _ _ h => h, fun _ => rfl, ⟨[.popped q n], rfl, by simp⟩⟩
  have henq : ∀ m, count (isEnqueue m) (t ++ [(i, Event.popped q n)]) = count (isEnqueue m) t := by
    intro m
    rw [count_snoc]
    simp [isEnqueue]
  have hpop : ∀ m, count (isPop m) (t ++ [(i, Event.popped q n)])
      = count (isPop m) t + if n = m then 1 else 0 := by
    intro m
    rw [count_snoc]
    simp [isPop]
  refine
    { now := h.now
      lasting := h.lasting
      once := fun m => ?_
      placed := fun m => ?_
      records := fun m he => ?_
      delivered := fun k m hk => ?_
      deliveredOnce := fun m => ?_
      noneDropped := fun k m hk => ?_ }
  · simpa only [henq] using h.once m
  · unfold Placed InOneQueue InNoQueue Entered
    simp only [hreg, hpop, henq]
    by_cases hm : m = n
    · subst hm
      -- the name was in a queue, so it was in this one only and had not been popped
      rcases h.placed m with ⟨-, h0, -⟩ | ⟨he, ⟨q₁, h1⟩, h0⟩ | ⟨-, h0, -⟩
      · exact absurd hq (h0 q)
      · have hq1 : q = q₁ := (h1 q).1 hq
        refine Or.inr (Or.inr ⟨he, fun q' hq' => ?_, by simpa using h0⟩)
        exact hq'.1 ⟨((h1 q').1 hq'.2).trans hq1.symm, rfl⟩
      · exact absurd hq (h0 q)
    · have hmn : ¬ n = m := fun e => hm e.symm
      have := h.placed m
      simpa only [Placed, InOneQueue, InNoQueue, Entered, hm, hmn, and_false, not_false_eq_true,
        true_and, if_false, Nat.add_zero] using this
  · exact h.records m (by simpa only [Entered, henq] using he)
  · obtain ⟨q', hq'⟩ := h.delivered k m (by simpa using hk)
    exact ⟨q', by simp [hq']⟩
  · have := h.deliveredOnce m
    rw [count_snoc]
    simpa [isDelivery] using this
  · exact h.noneDropped k m (by simpa using hk)

/-- A name is given to the worker that popped it, once. -/
theorem guar_deliver {w : World} {t : List (Option κ × Event)} {n : JobName}
    (hpop : ∃ q, (i, .popped q n) ∈ t) (hnew : (i, .delivered n) ∉ t) :
    Guar roles w₀ T i (w, t) (w, t ++ [(i, .delivered n)]) := by
  refine ⟨fun h => ?_, fun _ _ h => h, fun _ => rfl, ⟨[.delivered n], rfl, by simp⟩⟩
  have henq : ∀ m, count (isEnqueue m) (t ++ [(i, Event.delivered n)])
      = count (isEnqueue m) t := by
    intro m
    rw [count_snoc]
    simp [isEnqueue]
  have hpops : ∀ m, count (isPop m) (t ++ [(i, Event.delivered n)]) = count (isPop m) t := by
    intro m
    rw [count_snoc]
    simp [isPop]
  -- any earlier delivery was to the one party that popped the name, which is `i`
  have hnone : count (isDelivery n) t = 0 := by
    by_contra hc
    obtain ⟨⟨k, e⟩, hmem, he⟩ := List.countP_pos_iff.1 (Nat.pos_of_ne_zero hc)
    cases e with
    | delivered m =>
        have hm : m = n := by simpa [isDelivery] using he
        subst hm
        obtain ⟨q', hq'⟩ := h.delivered k m hmem
        obtain ⟨q, hq⟩ := hpop
        have hk : k = i :=
          eq_of_count_le_one (h.count_isPop_le m) hq' hq (by simp [isPop]) (by simp [isPop])
        exact hnew (hk ▸ hmem)
    | _ => simp [isDelivery] at he
  refine
    { now := h.now
      lasting := h.lasting
      once := fun m => by simpa only [henq] using h.once m
      placed := fun m => by
        simpa only [Placed, Entered, henq, hpops] using h.placed m
      records := fun m he => h.records m (by simpa only [Entered, henq] using he)
      delivered := fun k m hk => ?_
      deliveredOnce := fun m => ?_
      noneDropped := fun k m hk => h.noneDropped k m (by simpa using hk) }
  · rcases List.mem_append.1 hk with hk | hk
    · obtain ⟨q, hq⟩ := h.delivered k m hk
      exact ⟨q, by simp [hq]⟩
    · simp only [List.mem_singleton, Prod.mk.injEq, Event.delivered.injEq] at hk
      obtain ⟨rfl, rfl⟩ := hk
      obtain ⟨q, hq⟩ := hpop
      exact ⟨q, by simp [hq]⟩
  · rw [count_snoc]
    by_cases hm : n = m
    · subst hm; simp [isDelivery, hnone]
    · have := h.deliveredOnce m
      simpa [isDelivery, hm] using this

/-- The end of a call, which the invariant does not speak of. -/
def isReturn : Event → Bool
  | .enqueueReturned _ => true
  | .dequeueReturned _ => true
  | _ => false

theorem guar_return {w : World} {t : List (Option κ × Event)} {e : Event} (he : isReturn e = true) :
    Guar roles w₀ T i (w, t) (w, t ++ [(i, e)]) := by
  have hcount : (∀ m, count (isEnqueue m) (t ++ [(i, e)]) = count (isEnqueue m) t) ∧
      (∀ m, count (isPop m) (t ++ [(i, e)]) = count (isPop m) t) ∧
      ∀ m, count (isDelivery m) (t ++ [(i, e)]) = count (isDelivery m) t := by
    cases e <;> simp_all [isReturn, count_snoc, isEnqueue, isPop, isDelivery]
  obtain ⟨henq, hpop, hdelivery⟩ := hcount
  refine ⟨fun h => ?_, fun _ _ h => h, fun _ => rfl, ⟨[e], rfl, ?_⟩⟩
  · refine
      { now := h.now
        lasting := h.lasting
        once := fun m => by simpa only [henq] using h.once m
        placed := fun m => by simpa only [Placed, Entered, henq, hpop] using h.placed m
        records := fun m hm => h.records m (by simpa only [Entered, henq] using hm)
        delivered := fun k m hk => ?_
        deliveredOnce := fun m => by simpa only [hdelivery] using h.deliveredOnce m
        noneDropped := fun k m hk => ?_ }
    · have hold : (k, Event.delivered m) ∈ t := by
        rcases List.mem_append.1 hk with hk | hk
        · exact hk
        · cases List.mem_singleton.1 hk
          cases he
      obtain ⟨q, hq⟩ := h.delivered k m hold
      exact ⟨q, List.mem_append_left _ hq⟩
    · rcases List.mem_append.1 hk with hk | hk
      · exact h.noneDropped k m hk
      · cases List.mem_singleton.1 hk
        cases he
  · intro q n hn
    cases List.mem_singleton.1 hn
    cases he

/-! ## The parties keep their contracts -/

/-- The contract of party `i`. -/
def side (roles : κ → Role) (w₀ : World) (T : Int) (i : Option κ) :
    Side World Event (Option κ × Event) :=
  Side.amid (Guar roles w₀ T) i

/-- What a worker knows in the course of `dequeue_any`: no record it looks for is missing. -/
def view (i : Option κ) : DequeueView (Option κ × Event) where
  Seen := fun n c => c.1.loadable n
  Gone := fun _ _ => False
  Held := fun q n c => (i, .popped q n) ∈ c.2 ∧ (i, .delivered n) ∉ c.2
  Lost := fun _ _ => False
  Given := fun _ _ _ => True

theorem stable_inv : Stable (side roles w₀ T i).rely (Inv w₀ T) :=
  Side.stable_amid fun _ _ _ _ hg h => hg.inv h

theorem stable_loadable (n : JobName) :
    Stable (side roles w₀ T i).rely fun c => Inv w₀ T c ∧ c.1.loadable n :=
  Side.stable_amid fun _ _ _ _ hg h => ⟨hg.inv h.1, hg.loadable h.1 n h.2⟩

theorem stable_held (q : QueueName) (n : JobName) :
    Stable (side roles w₀ T i).rely fun c => Inv w₀ T c ∧ (view i).Held q n c := by
  refine Side.stable_amid fun j hj c c' hg h => ⟨hg.inv h.1, ?_⟩
  obtain ⟨es, hlog, -⟩ := hg.log
  obtain ⟨hq, hd⟩ := h.2
  simp only [view, hlog]
  refine ⟨List.mem_append_left _ hq, fun hmem => ?_⟩
  rcases List.mem_append.1 hmem with hmem | hmem
  · exact hd hmem
  · obtain ⟨e, -, he⟩ := List.mem_map.1 hmem
    exact hj (congrArg Prod.fst he)

theorem dequeueRule (qs : List QueueName) :
    DequeueRule (side roles w₀ T i) (Inv w₀ T) (view i) qs where
  stable := stable_inv
  stableSeen := stable_loadable
  stableGone := fun _ _ _ _ h => h.2.elim
  stableHeld := stable_held
  stableLost := fun _ _ _ _ h => h.2.elim
  stableGiven := fun _ _ _ _ hr h => ⟨stable_inv _ _ hr h.1, trivial⟩
  refl := fun c _ => Guar.refl c
  seen := fun _ _ _ _ _ h hq => h.loadable_of_queued hq
  gone := fun w _ n _ hs hex => by
    have hs' : w.loadable n := hs
    rw [hs'.jobExists] at hex
    cases hex
  delete := fun _ _ _ _ _ _ h => h.elim
  pop := fun w w' t q n _ h hp => by
    have hg : Guar roles w₀ T i (w, t) (w', t ++ [(i, .popped q n)]) := guar_pop hp
    refine ⟨hg, hg.inv h, by simp [side, Side.amid], fun hmem => ?_⟩
    -- nobody was given the name yet, because nobody had popped it
    have hmem' : (i, Event.delivered n) ∈ t := by simpa [side, Side.amid] using hmem
    obtain ⟨q', hq'⟩ := h.delivered i n hmem'
    have h1 : 1 ≤ count (isPop n) t := count_pos hq' (by simp [isPop])
    have h2 := (hg.inv h).count_isPop_le n
    simp only [count_snoc, isPop, decide_true, if_true] at h2
    omega
  lost := fun w _ q n h hheld hnot => hnot (h.loadable_of_popped hheld.1)
  drop := fun _ _ _ _ h => h.elim
  give := fun w t q n h hheld => by
    have hg : Guar roles w₀ T i (w, t) (w, t ++ [(i, .delivered n)]) :=
      guar_deliver ⟨q, hheld.1⟩ hheld.2
    exact ⟨hg, hg.inv h, trivial⟩

theorem worker_triple (env : Env) (queues : List Queue) (timeout : Option Int)
    (rounds fuel : Nat) :
    (side roles w₀ T i).Triple (Inv w₀ T)
      ((Role.worker queues timeout rounds fuel).program env) (fun _ => Inv w₀ T)
      (fun _ => Inv w₀ T) := by
  refine Side.Triple.forEach stable_inv _ (fun _ _ => ?_)
  refine Side.Triple.bind (Q := fun _ => Inv w₀ T) ?_ (fun job => ?_)
  swap
  · refine Side.Triple.emit stable_inv stable_inv fun w t hI => ?_
    have hg : Guar roles w₀ T i (w, t) (w, t ++ [(i, .dequeueReturned (job.map fun p => p.1.name))]) :=
      guar_return rfl
    exact ⟨hg, hg.inv hI⟩
  refine Side.Triple.tryCatch
    (((dequeueRule (queues.map Queue.name)).dequeueAny_triple env timeout fuel).mono
      (fun _ hc => hc) (fun _ _ hc => hc.1) (fun _ _ hc => hc)) (fun x => ?_)
  exact Side.Triple.ite (fun _ => Side.Triple.ret stable_inv fun _ hc => hc)
    (fun _ => Side.Triple.raise stable_inv fun _ hc => hc)

/-- The client `i` has still to enqueue the requests `rs`. -/
def Ready (w₀ : World) (T : Int) (rs : List Request) (c : Config World (Option κ × Event)) :
    Prop :=
  Inv w₀ T c ∧ ∀ r ∈ rs, count (isEnqueue r.job.name) c.2 = 0 ∧
    (r.job.saveAll = true ∨ c.1.loadable r.job.name)

/-- Nobody else enqueues the jobs of a client. -/
theorem stable_ready (hone : ∀ i j n, owns roles i n → owns roles j n → i = j)
    {rs : List Request} (hown : ∀ r ∈ rs, owns roles i r.job.name) :
    Stable (side roles w₀ T i).rely (Ready w₀ T rs) := by
  refine Side.stable_amid fun j hj c c' hg h => ⟨hg.inv h.1, fun r hr => ?_⟩
  obtain ⟨hcount, hrec⟩ := h.2 r hr
  obtain ⟨es, hlog, hes⟩ := hg.log
  refine ⟨?_, hrec.imp id (hg.loadable h.1 _)⟩
  have hnone : count (isEnqueue r.job.name) (es.map fun e => (j, e)) = 0 := by
    refine List.countP_eq_zero.2 fun x hx => ?_
    obtain ⟨e, he, rfl⟩ := List.mem_map.1 hx
    cases e with
    | enqueued q m =>
        intro hm
        have hm' : m = r.job.name := by simpa [isEnqueue] using hm
        subst hm'
        exact hj (hone j i _ (hes q _ he) (hown r hr))
    | _ => simp [isEnqueue]
  rw [hlog, count, List.countP_append]
  exact (congrArg₂ (· + ·) hcount hnone).trans rfl

/-- `enqueue_job` of a job that was not enqueued yet. -/
theorem enqueueJob_triple (env : Env)
    (hone : ∀ i j n, owns roles i n → owns roles j n → i = j) {r : Request}
    {rs : List Request} (hown : ∀ r' ∈ r :: rs, owns roles i r'.job.name)
    (hn : InNoQueue w₀ r.job.name) (hasync : r.queue.isAsync = true)
    (hnodup : r.job.name ∉ rs.map fun r => r.job.name) :
    (side roles w₀ T i).Triple (Ready w₀ T (r :: rs))
      (r.queue.enqueueJob env r.job r.atFront) (fun _ => Ready w₀ T rs)
      (fun _ => Inv w₀ T) := by
  have hst : Stable (side roles w₀ T i).rely (Ready w₀ T (r :: rs)) := stable_ready hone hown
  have hst' : Stable (side roles w₀ T i).rely (Ready w₀ T rs) :=
    stable_ready hone fun r' hr' => hown r' (by simp [hr'])
  have hsaved : Stable (side roles w₀ T i).rely fun c : Config World (Option κ × Event) =>
      Ready w₀ T (r :: rs) c ∧ c.1.loadable r.job.name := by
    intro c c' hr hc
    exact ⟨hst c c' hr hc.1, (stable_loadable r.job.name c c' hr ⟨hc.1.1, hc.2⟩).2⟩
  have hrefl : ∀ c : Config World (Option κ × Event), (side roles w₀ T i).guar c c :=
    fun c => Guar.refl c
  unfold Queue.enqueueJob
  refine Side.Triple.bind (read_triple hst (fun c _ => hrefl c) _) (fun now => ?_)
  rw [JobModel.get_save]
  refine Side.Triple.bind
    (Q := fun p c => (Ready w₀ T (r :: rs) c ∧ c.1.loadable r.job.name) ∧
      p.1.name = r.job.name) ?_ (fun p => ?_)
  · -- the save: afterwards the record is complete
    refine Side.Triple.ite (fun _ => ?_) (fun _ => Side.Triple.raise hst fun _ hc => hc.1)
    refine Side.Triple.bind (Q := fun _ c => Ready w₀ T (r :: rs) c ∧ c.1.loadable r.job.name)
      (Side.Triple.write hst hsaved ?_)
      (fun _ => Side.Triple.ret hsaved fun _ hc => ⟨hc, by simp⟩)
    intro w t hc
    have hload : ∀ n, w.loadable n → (w.saveJob (Queue.enqueuedModel r.job now) false).loadable n :=
      fun n h => World.loadable_saveJob (Or.inl h)
    have hg : Guar roles w₀ T i (w, t) (w.saveJob (Queue.enqueuedModel r.job now) false, t) :=
      Guar.of_state rfl (fun _ _ => Iff.rfl) (fun n d h => World.deadline_of_saveJob h) hload
    refine ⟨hg, ⟨hg.inv hc.1, fun r' hr' => ?_⟩, ?_⟩
    · obtain ⟨h0, hrec⟩ := hc.2 r' hr'
      exact ⟨h0, hrec.imp id (hload _)⟩
    · refine World.loadable_saveJob ?_
      rcases (hc.2 r (by simp)).2 with h | h
      · exact Or.inr ⟨rfl, Or.inr h⟩
      · exact Or.inl h
  · rw [hasync]
    have hst2 : Stable (side roles w₀ T i).rely fun c : Config World (Option κ × Event) =>
        (Ready w₀ T (r :: rs) c ∧ c.1.loadable r.job.name) ∧ p.1.name = r.job.name :=
      fun c c' hr hc => ⟨hsaved c c' hr hc.1, hc.2⟩
    refine Side.Triple.bind (enqueueScore_triple hst2 (fun c _ => hrefl c) _ _) (fun score => ?_)
    refine Side.Triple.bind (Side.Triple.command hst2 (fun _ => hst') ?_)
      (fun _ => Side.Triple.ret hst' fun _ hc => hc)
    intro w t hc
    obtain ⟨⟨⟨hI, hrest⟩, hl⟩, hname⟩ := hc
    rw [hname]
    have hg : Guar roles w₀ T i (w, t) _ :=
      guar_push (q := r.queue.name) (s := score) hn (hrest r (by simp)).1 hl (hown r (by simp))
    refine ⟨hg, hg.inv hI, fun r' hr' => ?_⟩
    obtain ⟨h0, hrec⟩ := hrest r' (by simp [hr'])
    have hne : ¬ r.job.name = r'.job.name := by
      intro h
      exact hnodup (h ▸ List.mem_map_of_mem hr')
    refine ⟨?_, hrec⟩
    simp only [side, Side.amid, List.map_cons, List.map_nil, count_snoc, h0, isEnqueue,
      Nat.zero_add]
    simp [hne]

theorem client_triple (env : Env)
    (hone : ∀ i j n, owns roles i n → owns roles j n → i = j) (rs : List Request)
    (hown : ∀ r ∈ rs, owns roles i r.job.name) (hn : ∀ r ∈ rs, InNoQueue w₀ r.job.name)
    (hasync : ∀ r ∈ rs, r.queue.isAsync = true)
    (hnodup : (rs.map fun r => r.job.name).Nodup) :
    (side roles w₀ T i).Triple (Ready w₀ T rs) ((Role.client rs).program env)
      (fun _ => Inv w₀ T) (fun _ => Inv w₀ T) := by
  simp only [Role.program]
  induction rs with
  | nil => exact Side.Triple.ret (stable_ready hone hown) fun _ hc => hc.1
  | cons r rs ih =>
      rw [List.map_cons, List.nodup_cons] at hnodup
      have hrest : Stable (side roles w₀ T i).rely (Ready w₀ T rs) :=
        stable_ready hone fun r' hr' => hown r' (by simp [hr'])
      refine Side.Triple.bind (Q := fun _ => Ready w₀ T rs) (Side.Triple.bind
        (enqueueJob_triple env hone hown (hn r (by simp)) (hasync r (by simp)) hnodup.1)
        (fun _ => Side.Triple.emit hrest hrest fun w t hc => ?_)) (fun _ => ?_)
      · have hg : Guar roles w₀ T i (w, t) (w, t ++ [(i, .enqueueReturned r.job.name)]) :=
          guar_return rfl
        refine ⟨hg, hg.inv hc.1, fun r' hr' => ?_⟩
        obtain ⟨h0, hrec⟩ := hc.2 r' hr'
        refine ⟨?_, hrec⟩
        simpa [side, Side.amid, count_snoc, isEnqueue] using h0
      exact ih (fun r' hr' => hown r' (by simp [hr'])) (fun r' hr' => hn r' (by simp [hr']))
        (fun r' hr' => hasync r' (by simp [hr'])) hnodup.2

theorem clock_triple (ticks : List Nat) :
    (side roles w₀ T none).Triple
      (fun c : Config World (Option κ × Event) => Inv w₀ T c ∧ c.1.now + ticks.sum = T)
      (clock ticks) (fun _ => Inv w₀ T) (fun _ => Inv w₀ T) := by
  have hst : ∀ ticks : List Nat, Stable (side roles w₀ T none).rely
      fun c : Config World (Option κ × Event) => Inv w₀ T c ∧ c.1.now + ticks.sum = T :=
    fun _ => Side.stable_amid fun j hj c c' hg h => ⟨hg.inv h.1, by rw [hg.now hj]; exact h.2⟩
  unfold clock
  induction ticks with
  | nil => exact Side.Triple.ret (hst []) fun _ hc => hc.1
  | cons d ticks ih =>
      refine Side.Triple.bind (Side.Triple.write (hst (d :: ticks)) (hst ticks) ?_)
        (fun _ => ih)
      intro w t hc
      obtain ⟨hI, hsum⟩ := hc
      have hsum' : w.now + d + ticks.sum = T := by
        rw [← hsum]
        simp only [List.sum_cons, Nat.cast_add]
        ring
      have hg : Guar roles w₀ T none (w, t) (w.advance d, t) := guar_advance (by omega)
      exact ⟨hg, hg.inv hI, hsum'⟩

/-! ## The pool -/

theorem Setup.inv {ticks : List Nat} {w : World} (h : Setup roles ticks w) :
    Inv w (w.now + ticks.sum) (w, ([] : List (Option κ × Event))) where
  now := Int.le_add_of_nonneg_right (Int.natCast_nonneg _)
  lasting := h.lasting
  once := fun n => by simp [count]
  placed := fun n => by
    by_cases hn : InNoQueue w n
    · exact Or.inl ⟨by simp [Entered, hn, count], hn, rfl⟩
    · obtain ⟨q, hq⟩ := not_forall_not.1 hn
      refine Or.inr (Or.inl ⟨Or.inl hn, ⟨q, fun q' => ⟨fun hq' => h.queuedOnce _ _ n hq' hq, ?_⟩⟩,
        rfl⟩)
      rintro rfl
      exact hq
  records := fun n he => by
    rcases he with he | he
    · obtain ⟨q, hq⟩ := not_forall_not.1 he
      exact h.queuedRecords q n hq
    · simp [count] at he
  delivered := by simp
  deliveredOnce := fun n => by simp [count]
  noneDropped := by simp

theorem pool_allSafe (env : Env) {ticks : List Nat} {w : World} (h : Setup roles ticks w) :
    (pool env roles ticks w).AllSafe (side roles w (w.now + ticks.sum))
      (fun _ _ => Inv w (w.now + ticks.sum)) (fun _ _ => Inv w (w.now + ticks.sum)) := by
  intro i
  cases i with
  | none => exact clock_triple ticks _ ⟨h.inv, rfl⟩
  | some k =>
      have hreq : ∀ r ∈ (roles k).requests, owns roles (some k) r.job.name :=
        fun r hr => ⟨r, hr, rfl⟩
      have hnot : ∀ r ∈ (roles k).requests, InNoQueue w r.job.name :=
        fun r hr q => h.notQueued (some k) _ q (hreq r hr)
      have hrec := h.records k
      have hasync := h.async k
      have honce := h.once k
      simp only [pool]
      cases hk : roles k with
      | worker queues timeout rounds fuel =>
          exact worker_triple env queues timeout rounds fuel _ h.inv
      | client rs =>
          rw [hk] at hreq hnot hrec hasync honce
          refine client_triple env h.oneParty rs hreq hnot hasync honce _ ⟨h.inv, ?_⟩
          exact fun r hr => ⟨rfl, hrec r hr⟩

/-! ## The calls of a party -/

/-- The name that a worker has popped in its call of `dequeue_any`, and whether its record was
loaded. -/
abbrev Hand := Option (JobName × Bool)

/-- What a worker does in turn: pop a name, load its record or drop the name, return it. -/
def handAfter : Hand → Event → Option Hand
  | none, .popped _ n => some (some (n, false))
  | none, .dequeueReturned none => some none
  | some (n, false), .delivered m => if m = n then some (some (n, true)) else none
  | some (n, false), .dropped m => if m = n then some none else none
  | some (n, true), .dequeueReturned (some m) => if m = n then some none else none
  | _, _ => none

theorem compact_follows (q : QueueName) {X : PyError → Hand → Prop} :
    (Registry.mk q .queued).compact.Follows handAfter (fun _ h => h = none) X none := by
  unfold Registry.compact
  rw [allWithTimestamps_queued]
  refine Prog.Follows.bind (Q := fun _ h => h = none) (.read fun _ => rfl) fun jobs h hh => ?_
  subst hh
  refine .forEach fun p _ => ?_
  refine Prog.Follows.bind (Q := fun _ h => h = none) (.read fun _ => rfl) fun found h hh => ?_
  subst hh
  cases found with
  | true => exact rfl
  | false => exact .write rfl

/-- The hand after a pop that answered `r`: it holds the name, which is of one of the queues. -/
def Taken (qs : List QueueName) (r : Option (QueueName × JobName)) (h : Hand) : Prop :=
  h = r.map (fun p => (p.2, false)) ∧ ∀ p ∈ r, p.1 ∈ qs

theorem popNonBlocking_follows {qs : List QueueName} {X : PyError → Hand → Prop} :
    ∀ l : List QueueName, (∀ q ∈ l, q ∈ qs) →
      (Registry.popNonBlocking l).Follows handAfter (Taken qs) X none := by
  intro l
  induction l with
  | nil => exact fun _ => ⟨rfl, fun p hp => by cases hp⟩
  | cons q l ih =>
      intro hl
      refine Prog.Follows.bind (Q := fun r h => h = r.map fun n => (n, false))
        (.command fun w => ?_) fun r h hh => ?_
      · cases (w.zpopmin q .queued).1 with
        | none => exact ⟨none, rfl, rfl⟩
        | some n => exact ⟨some (n, false), rfl, rfl⟩
      · subst hh
        cases r with
        | none => exact ih fun q' hq' => hl q' (List.mem_cons_of_mem _ hq')
        | some n =>
            refine ⟨rfl, fun p hp => ?_⟩
            cases hp
            exact hl q List.mem_cons_self

theorem pop_follows (qs : List QueueName) (timeout : Option Int) :
    (Registry.pop qs timeout).Follows handAfter (Taken qs) (fun _ h => h = none) none := by
  unfold Registry.pop
  split
  · exact rfl
  · split
    · refine Prog.Follows.bind (Q := Taken qs) (.command fun w => ?_) fun r h hh => ?_
      · rcases hp : w.bzpopmin qs with ⟨_ | ⟨q, n⟩, w'⟩
        · exact ⟨none, rfl, rfl, fun p hp => by cases hp⟩
        · refine ⟨some (n, false), rfl, rfl, fun p hp' => ?_⟩
          cases hp'
          exact (World.bzpopmin_some hp).1
      · cases r with
        | none => exact hh.1
        | some p => exact hh
    · exact popNonBlocking_follows qs fun _ hq => hq

/-- A call of `dequeue_any` ends with what it popped, and raises with empty hands. -/
theorem dequeueAny_follows (env : Env) (queues : List Queue) (timeout : Option Int) (fuel : Nat) :
    (Queue.dequeueAny env queues timeout fuel).Follows handAfter
      (fun r h => h = r.map fun p => (p.1.name, true)) (fun _ h => h = none) none := by
  induction fuel with
  | zero => exact rfl
  | succ fuel ih =>
      refine Prog.Follows.bind (Q := fun _ h => h = none)
        (.forEach fun q _ => compact_follows q.name) fun _ h hh => ?_
      subst hh
      refine (pop_follows _ timeout).bind fun r h hh => ?_
      obtain ⟨rfl, hkey⟩ := hh
      cases r with
      | none => exact rfl
      | some p =>
          obtain ⟨key, n⟩ := p
          dsimp only
          cases hfind : List.find? (fun q : Queue => decide (q.name = key)) queues with
          | none =>
              -- the name was popped from one of the queues
              obtain ⟨q, hq, hname⟩ := List.mem_map.1 (hkey _ rfl)
              exact absurd (List.find?_eq_none.1 hfind q hq) (by simp [hname])
          | some q =>
              refine Prog.Follows.bind
                (Q := fun job h => h = some (n, false) ∧ ∀ j ∈ job, j.name = n) ?_ fun job h hh => ?_
              · intro w
                refine ⟨_, rfl, rfl, fun j hj => ?_⟩
                exact JobModel.name_of_fetch hj
              · obtain ⟨rfl, hname⟩ := hh
                cases job with
                | none =>
                    refine Prog.Follows.bind (Q := fun _ h => h = none)
                      (.emit (r := none) (if_pos rfl) rfl) fun _ h hh => ?_
                    subst hh
                    exact ih
                | some j =>
                    refine Prog.Follows.bind (Q := fun _ h => h = some (n, true))
                      (.emit (r := some (n, true)) (if_pos rfl) rfl) fun _ h hh => ?_
                    subst hh
                    exact congrArg (fun m => some (m, true)) (hname j rfl).symm

theorem worker_follows (env : Env) (queues : List Queue) (timeout : Option Int)
    (rounds fuel : Nat) :
    ((Role.worker queues timeout rounds fuel).program env).Follows handAfter (fun _ h => h = none)
      (fun _ h => h = none) none := by
  refine .forEach fun _ _ => ?_
  refine Prog.Follows.bind (Q := fun r h => h = r.map fun p => (p.1.name, true))
    ((dequeueAny_follows env queues timeout fuel).tryCatch fun x h hh => ?_) fun r h hh => ?_
  · subst hh
    split
    · exact rfl
    · exact rfl
  · subst hh
    cases r with
    | none => exact .emit (r := none) rfl rfl
    | some p => exact .emit (r := none) (if_pos rfl) rfl

/-- The requests that a client has still to make, and whether the job of the first was added. -/
abbrev ToDo := Bool × List Request

/-- What a client does in turn: add the job of a request, return. -/
def toDoAfter : ToDo → Event → Option ToDo
  | (false, r :: rs), .enqueued q n =>
      if q = r.queue.name ∧ n = r.job.name then some (true, r :: rs) else none
  | (true, r :: rs), .enqueueReturned n => if n = r.job.name then some (false, rs) else none
  | _, _ => none

/-- The request that is being made has a job that cannot be encoded. -/
def Refused (t : ToDo) : Prop := ∃ r rs, t = (false, r :: rs) ∧ r.job.serializable = false

theorem enqueueScore_follows (q : Queue) (atFront : Bool) {t : ToDo} {X : PyError → ToDo → Prop} :
    (q.enqueueScore atFront).Follows toDoAfter (fun _ t' => t' = t) X t := by
  have hread : ∀ {α : Type} (g : World → α), (Prog.read g : Py α).Follows toDoAfter
      (fun _ t' => t' = t) X t := fun g => .read fun _ => rfl
  unfold Queue.enqueueScore
  split
  · exact hread _
  · unfold Registry.getLastTimestamp
    rw [Prog.bind_assoc]
    refine (hread _).bind fun res t' ht => ?_
    subst ht
    show (timestampOrNow _).Follows _ _ _ _
    cases res.head?.map fun p => currentTimestamp p.1 with
    | none => exact hread _
    | some s =>
        rw [timestampOrNow]
        split
        · exact hread _
        · exact rfl

/-- A save makes no events; it raises if the job cannot be encoded. -/
theorem save_follows {r : Request} {rs : List Request} {j : JobModel}
    (hserial : j.serializable = r.job.serializable) :
    (After.get (j.save false)).Follows toDoAfter
      (fun p t => t = (false, r :: rs) ∧ p.1.name = j.name) (fun _ => Refused) (false, r :: rs) := by
  rw [JobModel.get_save]
  cases hj : j.serializable with
  | true =>
      rw [if_pos rfl]
      refine Prog.Follows.bind (Q := fun _ t => t = (false, r :: rs)) (.write rfl) fun _ t ht => ?_
      exact ⟨ht, JobModel.saved_name j⟩
  | false =>
      rw [if_neg Bool.false_ne_true]
      exact ⟨r, rs, rfl, hserial.symm.trans hj⟩

theorem enqueueJob_follows (env : Env) {r : Request} (rs : List Request)
    (hasync : r.queue.isAsync = true) :
    (r.queue.enqueueJob env r.job r.atFront).Follows toDoAfter (fun _ t => t = (true, r :: rs))
      (fun _ => Refused) (false, r :: rs) := by
  unfold Queue.enqueueJob
  refine Prog.Follows.bind (Q := fun _ t => t = (false, r :: rs)) (.read fun _ => rfl)
    fun now t ht => ?_
  subst ht
  have hserial : (Queue.enqueuedModel r.job now).serializable = r.job.serializable := rfl
  refine Prog.Follows.bind (Q := fun p t => t = (false, r :: rs) ∧ p.1.name = r.job.name) ?_
    fun p t ht => ?_
  · exact (save_follows hserial).mono
      (fun _ _ ht => ⟨ht.1, ht.2.trans (Queue.enqueuedModel_name r.job now)⟩) fun _ _ hx => hx
  obtain ⟨rfl, hname⟩ := ht
  rw [hasync]
  refine Prog.Follows.bind (Q := fun _ t => t = (false, r :: rs)) ?_ fun score t ht => ?_
  · exact enqueueScore_follows r.queue r.atFront
  · subst ht
    refine Prog.Follows.bind (Q := fun _ t => t = (true, r :: rs)) (.command fun w => ?_)
      fun _ t ht => ht
    refine ⟨(true, r :: rs), ?_, rfl⟩
    rw [runEvents_singleton, hname]
    exact if_pos ⟨rfl, rfl⟩

theorem client_follows (env : Env) {rs : List Request} (hasync : ∀ r ∈ rs, r.queue.isAsync = true) :
    ((Role.client rs).program env).Follows toDoAfter (fun _ t => t = (false, []))
      (fun _ => Refused) (false, rs) := by
  simp only [Role.program]
  induction rs with
  | nil => exact rfl
  | cons r rs ih =>
      obtain ⟨hr, hrs⟩ := List.forall_mem_cons.1 hasync
      refine Prog.Follows.bind (Q := fun _ t => t = (false, rs)) ?_ fun _ t ht => ?_
      · refine (enqueueJob_follows env rs hr).bind fun _ t ht => ?_
        subst ht
        exact .emit (r := (false, rs)) (if_pos rfl) rfl
      · subst ht
        exact ih hrs

variable [DecidableEq κ]

/-- The invariant holds in every state of every run. -/
theorem exec_inv (env : Env) {ticks : List Nat} {w : World} (h : Setup roles ticks w)
    (l : List (Option κ)) :
    Inv w (w.now + ticks.sum) ((pool env roles ticks w).exec l).config :=
  Pool.exec_invariant (fun _ _ => rfl) Side.amid_covers (pool_allSafe env h)
    (fun _ _ _ hg hI => hg.inv hI) h.inv l

/-- What is done of the requests has been returned from. -/
theorem toDo_done {es : List Event} {t t' : ToDo} (h : runEvents toDoAfter t es = some t') :
    ∃ made, t.2 = made ++ t'.2 ∧ ∀ r ∈ made, .enqueueReturned r.job.name ∈ es := by
  induction es generalizing t with
  | nil =>
      cases h
      exact ⟨[], rfl, fun r hr => by cases hr⟩
  | cons e es ih =>
      obtain ⟨t₁, hfirst, hrest⟩ := Option.bind_eq_some_iff.1 h
      obtain ⟨made, hmade, hall⟩ := ih hrest
      have hlater : ∀ r ∈ made, .enqueueReturned r.job.name ∈ e :: es :=
        fun r hr => List.mem_cons_of_mem _ (hall r hr)
      unfold toDoAfter at hfirst
      split at hfirst
      · split at hfirst
        · cases hfirst
          exact ⟨made, hmade, hlater⟩
        · cases hfirst
      · rename_i r rs n
        split at hfirst
        · rename_i hn
          cases hfirst
          refine ⟨r :: made, congrArg (r :: ·) hmade, fun r' hr' => ?_⟩
          rcases List.mem_cons.1 hr' with rfl | hr'
          · exact hn ▸ List.mem_cons_self
          · exact hlater r' hr'
        · cases hfirst
      · cases hfirst

/-- A call of `enqueue_job` that has returned has added its job. -/
theorem toDo_returned {es : List Event} {t t' : ToDo} (h : runEvents toDoAfter t es = some t')
    {n : JobName} (hn : .enqueueReturned n ∈ es) :
    (∃ q, .enqueued q n ∈ es) ∨ ∃ r rs, t = (true, r :: rs) ∧ r.job.name = n := by
  induction es generalizing t with
  | nil => cases hn
  | cons e es ih =>
      obtain ⟨t₁, hfirst, hrest⟩ := Option.bind_eq_some_iff.1 h
      unfold toDoAfter at hfirst
      split at hfirst
      · rename_i r rs q m
        split at hfirst
        · rename_i hm
          cases hfirst
          have htail : .enqueueReturned n ∈ es := by simpa using hn
          rcases ih hrest htail with ⟨q', hq'⟩ | ⟨r', rs', heq, hr'⟩
          · exact .inl ⟨q', List.mem_cons_of_mem _ hq'⟩
          · cases heq
            rw [← hr', ← hm.2]
            exact .inl ⟨q, List.mem_cons_self⟩
        · cases hfirst
      · rename_i r rs m
        split at hfirst
        · rename_i hm
          cases hfirst
          rcases List.mem_cons.1 hn with heq | htail
          · cases heq
            exact .inr ⟨r, rs, rfl, hm.symm⟩
          · rcases ih hrest htail with ⟨q', hq'⟩ | ⟨r', rs', heq, -⟩
            · exact .inl ⟨q', List.mem_cons_of_mem _ hq'⟩
            · cases heq
        · cases hfirst
      · cases hfirst

/-- A client makes no other events than these. -/
theorem toDo_events {es : List Event} {t t' : ToDo} (h : runEvents toDoAfter t es = some t')
    {e : Event} (he : e ∈ es) : (∃ q n, e = .enqueued q n) ∨ ∃ n, e = .enqueueReturned n := by
  induction es generalizing t with
  | nil => cases he
  | cons e' es ih =>
      obtain ⟨t₁, hfirst, hrest⟩ := Option.bind_eq_some_iff.1 h
      rcases List.mem_cons.1 he with rfl | htail
      · unfold toDoAfter at hfirst
        split at hfirst
        · exact .inl ⟨_, _, rfl⟩
        · exact .inr ⟨_, rfl⟩
        · cases hfirst
      · exact ih hrest htail

/-- A name in the hand is dropped, or returned, or the call goes on with it. -/
theorem hand_held {es : List Event} {n : JobName} {b : Bool} {h' : Hand}
    (h : runEvents handAfter (some (n, b)) es = some h') :
    .dropped n ∈ es ∨ .dequeueReturned (some n) ∈ es ∨
      (∃ b', h' = some (n, b')) ∧ ∀ r, .dequeueReturned r ∉ es := by
  induction es generalizing b with
  | nil =>
      cases h
      exact .inr (.inr ⟨⟨b, rfl⟩, fun r => List.not_mem_nil⟩)
  | cons e es ih =>
      obtain ⟨h₁, hfirst, hrest⟩ := Option.bind_eq_some_iff.1 h
      cases b with
      | false =>
          unfold handAfter at hfirst
          split at hfirst
          · rename_i heq
            cases heq
          · rename_i heq
            cases heq
          · rename_i k m heq
            cases heq
            split at hfirst
            · cases hfirst
              rcases ih hrest with hd | hr | ⟨hend, hno⟩
              · exact .inl (List.mem_cons_of_mem _ hd)
              · exact .inr (.inl (List.mem_cons_of_mem _ hr))
              · exact .inr (.inr ⟨hend, fun r hr => hno r (by simpa using hr)⟩)
            · cases hfirst
          · rename_i k m heq
            cases heq
            split at hfirst
            · rename_i hm
              exact .inl (hm ▸ List.mem_cons_self)
            · cases hfirst
          · rename_i heq
            cases heq
          · cases hfirst
      | true =>
          unfold handAfter at hfirst
          split at hfirst
          · rename_i heq
            cases heq
          · rename_i heq
            cases heq
          · rename_i heq
            cases heq
          · rename_i heq
            cases heq
          · rename_i k m heq
            cases heq
            split at hfirst
            · rename_i hm
              exact .inr (.inl (hm ▸ List.mem_cons_self))
            · cases hfirst
          · cases hfirst

/-- A name that was returned has been delivered. -/
theorem hand_returned {es : List Event} {h h' : Hand} (hes : runEvents handAfter h es = some h')
    {n : JobName} (hn : .dequeueReturned (some n) ∈ es) : .delivered n ∈ es ∨ h = some (n, true) := by
  induction es generalizing h with
  | nil => cases hn
  | cons e es ih =>
      obtain ⟨h₁, hfirst, hrest⟩ := Option.bind_eq_some_iff.1 hes
      rcases List.mem_cons.1 hn with rfl | htail
      · unfold handAfter at hfirst
        split at hfirst
        · rename_i heq
          cases heq
        · rename_i heq
          cases heq
        · rename_i heq
          cases heq
        · rename_i heq
          cases heq
        · rename_i k m heq
          cases heq
          split at hfirst
          · rename_i hm
            exact .inr (hm ▸ rfl)
          · cases hfirst
        · cases hfirst
      · rcases ih hrest htail with hd | rfl
        · exact .inl (List.mem_cons_of_mem _ hd)
        · -- the record was loaded by this event
          unfold handAfter at hfirst
          split at hfirst
          · cases hfirst
          · cases hfirst
          · split at hfirst
            · rename_i hm
              cases hfirst
              exact .inl (hm ▸ List.mem_cons_self)
            · cases hfirst
          · split at hfirst
            · cases hfirst
            · cases hfirst
          · split at hfirst
            · cases hfirst
            · cases hfirst
          · cases hfirst

/-- The clock makes no events. -/
theorem clock_follows (ticks : List Nat) : (clock ticks).Follows (fun _ _ => none)
    (fun _ q => q = ()) (fun _ _ => False) () :=
  .forEach fun _ _ => .write rfl

section Runs

variable (env : Env) {ticks : List Nat} {w : World} (l : List (Option κ))

theorem clock_log {e : Event} : (none, e) ∉ ((pool env roles ticks w).exec l).log := by
  intro hmem
  have hstart : Pool.Followed (fun _ _ => none) (fun _ q => q = ()) (fun _ _ => False) () none
      (pool env roles ticks w) () := ⟨rfl, clock_follows ticks⟩
  obtain ⟨u, hu⟩ := Pool.exec_followed hstart l
  have hreached := hu.reached
  cases hes : Pool.eventsOf none ((pool env roles ticks w).exec l).log with
  | nil =>
      rw [← Pool.mem_eventsOf, hes] at hmem
      cases hmem
  | cons e es =>
      rw [hes] at hreached
      cases hreached

theorem client_followed {k : κ} {rs : List Request} (hk : roles k = .client rs)
    (hasync : ∀ r ∈ rs, r.queue.isAsync = true) :
    ∃ t, Pool.Followed toDoAfter (fun _ t => t = (false, [])) (fun _ => Refused) (false, rs) (some k)
      ((pool env roles ticks w).exec l) t := by
  refine Pool.exec_followed ⟨rfl, ?_⟩ l
  show ((roles k).program env).Follows _ _ _ _
  rw [hk]
  exact client_follows env hasync

theorem worker_followed {k : κ} {queues : List Queue} {timeout : Option Int} {rounds fuel : Nat}
    (hk : roles k = .worker queues timeout rounds fuel) :
    ∃ t, Pool.Followed handAfter (fun _ h => h = none) (fun _ h => h = none) none (some k)
      ((pool env roles ticks w).exec l) t := by
  refine Pool.exec_followed ⟨rfl, ?_⟩ l
  show ((roles k).program env).Follows _ _ _ _
  rw [hk]
  exact worker_follows env queues timeout rounds fuel

end Runs

/-- A job of the system: it is in a queue at the start, or a client enqueues it. -/
def IsJob (roles : κ → Role) (w : World) (n : JobName) : Prop :=
  ¬ InNoQueue w n ∨ ∃ k, owns roles (some k) n

/-- The client has not returned from the `enqueue_job` of the job: it runs, or it ended with the
error of a request that it made no later, whose job cannot be encoded. -/
structure Owes (roles : κ → Role) (P : Pool (Option κ) World Event PyError Unit) (k : κ)
    (n : JobName) : Prop where
  owns : owns roles (some k) n
  notReturned : (some k, .enqueueReturned n) ∉ P.log
  runs : Pool.Running P (some k) ∨ (∃ x, P.threads (some k) = .raise x) ∧
    ∃ made r rest, (roles k).requests = made ++ r :: rest ∧ r.job.serializable = false ∧
      ∃ r' ∈ r :: rest, r'.job.name = n

/-- The party is still in the call of `dequeue_any` in which it popped the name. -/
structure Holds (P : Pool (Option κ) World Event PyError Unit) (i : Option κ) (n : JobName) :
    Prop where
  runs : Pool.Running P i
  inCall : ∃ q l₁ l₂, Pool.eventsOf i P.log = l₁ ++ .popped q n :: l₂ ∧ ∀ r, .dequeueReturned r ∉ l₂

/-- The job is still to be added by its one enqueuer, who has not returned from `enqueue_job`, and
nobody popped it; or it is in exactly one queue, with its record, and nobody popped it; or exactly
one party popped it, once, and is still in this call of `dequeue_any`, or returned the job. -/
def Accounted (roles : κ → Role) (n : JobName) (P : Pool (Option κ) World Event PyError Unit) :
    Prop :=
  ((∃ k, Owes roles P k n) ∧ (∀ i q, (i, .enqueued q n) ∉ P.log) ∧ InNoQueue P.state n ∧
    count (isPop n) P.log = 0) ∨
  (InOneQueue P.state n ∧ P.state.loadable n ∧ count (isPop n) P.log = 0) ∨
  (InNoQueue P.state n ∧ count (isPop n) P.log = 1 ∧ ∃ i, (∀ j q, (j, .popped q n) ∈ P.log → j = i) ∧
    (Holds P i n ∨ (i, .dequeueReturned (some n)) ∈ P.log))

/-- A job that was not added yet is owed by its client. -/
theorem owes_of_not_enqueued (env : Env) {ticks : List Nat} {w : World} (h : Setup roles ticks w)
    (l : List (Option κ)) {n : JobName} {k : κ} (hk : owns roles (some k) n)
    (hno : ∀ i q, (i, .enqueued q n) ∉ ((pool env roles ticks w).exec l).log) :
    Owes roles ((pool env roles ticks w).exec l) k n := by
  obtain ⟨r, hr, hname⟩ := hk
  cases hrole : roles k with
  | worker =>
      rw [hrole] at hr
      cases hr
  | client rs =>
      have hasync := h.async k
      rw [hrole] at hr hasync
      obtain ⟨t, ht⟩ := client_followed env l hrole hasync
      have hnot : (some k, .enqueueReturned n) ∉ ((pool env roles ticks w).exec l).log := by
        intro hmem
        rcases toDo_returned ht.reached (Pool.mem_eventsOf.2 hmem) with ⟨q, hq⟩ | ⟨_, _, heq, -⟩
        · exact hno (some k) q (Pool.mem_eventsOf.1 hq)
        · cases heq
      obtain ⟨made, hmade, hall⟩ := toDo_done ht.reached
      -- the request was not returned from, so it is still to do
      have hleft : r ∈ t.2 := by
        have hmem : r ∈ made ++ t.2 := hmade ▸ hr
        rcases List.mem_append.1 hmem with hm | hm
        · exact absurd (hname ▸ Pool.mem_eventsOf.1 (hall r hm)) hnot
        · exact hm
      refine ⟨⟨r, hrole ▸ hr, hname⟩, hnot, ?_⟩
      rcases ht.ended with hruns | ⟨_, _, rfl⟩ | ⟨x, hx, ⟨r', rest, rfl, hserial⟩⟩
      · exact .inl hruns
      · cases hleft
      · refine .inr ⟨⟨x, hx⟩, made, r', rest, ?_, hserial, r, hleft, hname⟩
        rw [hrole]
        exact hmade

/-- The popper of a name that was not dropped holds it, or has returned it. -/
theorem holds_of_popped (env : Env) {ticks : List Nat} {w : World} (h : Setup roles ticks w)
    (l : List (Option κ)) {n : JobName} {i : Option κ} {q : QueueName}
    (hpop : (i, .popped q n) ∈ ((pool env roles ticks w).exec l).log)
    (hdrop : (i, .dropped n) ∉ ((pool env roles ticks w).exec l).log) :
    Holds ((pool env roles ticks w).exec l) i n ∨
      (i, .dequeueReturned (some n)) ∈ ((pool env roles ticks w).exec l).log := by
  cases i with
  | none => exact absurd hpop (clock_log env l)
  | some k =>
      cases hrole : roles k with
      | client rs =>
          have hasync := h.async k
          rw [hrole] at hasync
          obtain ⟨t, ht⟩ := client_followed env l hrole hasync
          rcases toDo_events ht.reached (Pool.mem_eventsOf.2 hpop) with ⟨_, _, heq⟩ | ⟨_, heq⟩
          · cases heq
          · cases heq
      | worker queues timeout rounds fuel =>
          obtain ⟨hand, ht⟩ := worker_followed env l hrole
          obtain ⟨l₁, l₂, hlog⟩ := List.append_of_mem (Pool.mem_eventsOf.2 hpop)
          have hmem : ∀ e ∈ l₂, (some k, e) ∈ ((pool env roles ticks w).exec l).log := by
            intro e he
            refine Pool.mem_eventsOf.1 ?_
            rw [hlog]
            exact List.mem_append_right _ (List.mem_cons_of_mem _ he)
          have hreached := ht.reached
          rw [hlog, runEvents_append] at hreached
          obtain ⟨h₁, -, hrest⟩ := Option.bind_eq_some_iff.1 hreached
          obtain ⟨h₂, hpopped, hheld⟩ := Option.bind_eq_some_iff.1 hrest
          have hempty : h₁ = none ∧ h₂ = some (n, false) := by
            cases h₁ with
            | none =>
                cases hpopped
                exact ⟨rfl, rfl⟩
            | some x =>
                obtain ⟨m, b⟩ := x
                cases b <;> cases hpopped
          rw [hempty.2] at hheld
          rcases hand_held hheld with hd | hr | ⟨⟨b, rfl⟩, hno⟩
          · exact absurd (hmem _ hd) hdrop
          · exact .inr (hmem _ hr)
          · refine .inl ⟨?_, q, l₁, l₂, hlog, hno⟩
            rcases ht.ended with hruns | ⟨_, _, hend⟩ | ⟨_, _, hend⟩
            · exact hruns
            · cases hend
            · cases hend

/-- What a call of `dequeue_any` returned was delivered in it. -/
theorem delivered_of_returned (env : Env) {ticks : List Nat} {w : World} (h : Setup roles ticks w)
    (l : List (Option κ)) {n : JobName} {i : Option κ}
    (hret : (i, .dequeueReturned (some n)) ∈ ((pool env roles ticks w).exec l).log) :
    (i, .delivered n) ∈ ((pool env roles ticks w).exec l).log := by
  cases i with
  | none => exact absurd hret (clock_log env l)
  | some k =>
      cases hrole : roles k with
      | client rs =>
          have hasync := h.async k
          rw [hrole] at hasync
          obtain ⟨t, ht⟩ := client_followed env l hrole hasync
          rcases toDo_events ht.reached (Pool.mem_eventsOf.2 hret) with ⟨_, _, heq⟩ | ⟨_, heq⟩
          · cases heq
          · cases heq
      | worker queues timeout rounds fuel =>
          obtain ⟨hand, ht⟩ := worker_followed env l hrole
          rcases hand_returned ht.reached (Pool.mem_eventsOf.2 hret) with hd | heq
          · exact Pool.mem_eventsOf.1 hd
          · cases heq

/-- **No enqueued job is lost, and none is delivered twice.** In every state of every
interleaving each job is accounted for, no popped name was forgotten, and a job is delivered
at most once, to the worker that popped it and whose call returns it. -/
theorem delivered_at_most_once (env : Env) {ticks : List Nat} {w : World}
    (h : Setup roles ticks w) (l : List (Option κ)) (n : JobName) (hn : IsJob roles w n) :
    Accounted roles n ((pool env roles ticks w).exec l) ∧
      (∀ i, (i, .dropped n) ∉ ((pool env roles ticks w).exec l).log) ∧
      (∀ i, (i, .delivered n) ∈ ((pool env roles ticks w).exec l).log →
        ∃ q, (i, .popped q n) ∈ ((pool env roles ticks w).exec l).log) ∧
      (∀ i, (i, .dequeueReturned (some n)) ∈ ((pool env roles ticks w).exec l).log →
        (i, .delivered n) ∈ ((pool env roles ticks w).exec l).log) ∧
      count (isDelivery n) ((pool env roles ticks w).exec l).log ≤ 1 := by
  have hI := exec_inv env h l
  refine ⟨?_, fun i => hI.noneDropped i n, fun i => hI.delivered i n,
    fun i => delivered_of_returned env h l, hI.deliveredOnce n⟩
  rcases hI.placed n with ⟨he, hno, hp⟩ | ⟨he, hone, hp⟩ | ⟨-, hno, hp⟩
  · have hstart : InNoQueue w n := by
      by_contra hw
      exact he (Or.inl hw)
    have hnone : ∀ i q, (i, .enqueued q n) ∉ ((pool env roles ticks w).exec l).log := by
      intro i q hmem
      have h1 := count_pos (p := isEnqueue n) hmem (by simp [isEnqueue])
      have h2 := hI.once n
      exact he (Or.inr (le_antisymm h2 h1))
    obtain ⟨k, hk⟩ := hn.resolve_left (not_not.2 hstart)
    exact Or.inl ⟨⟨k, owes_of_not_enqueued env h l hk hnone⟩, hnone, hno, hp⟩
  · exact Or.inr (Or.inl ⟨hone, hI.records n he, hp⟩)
  · refine Or.inr (Or.inr ⟨hno, hp, ?_⟩)
    have hpos : 0 < count (isPop n) ((pool env roles ticks w).exec l).config.2 := by omega
    obtain ⟨⟨i, e⟩, hmem, he⟩ := List.countP_pos_iff.1 hpos
    refine ⟨i, fun j q hj => ?_, ?_⟩
    · exact eq_of_count_le_one (hI.count_isPop_le n) hj hmem (by simp [isPop]) he
    · cases e with
      | popped q m =>
          have hm : m = n := of_decide_eq_true he
          exact holds_of_popped env h l (hm ▸ hmem) (hI.noneDropped i n)
      | _ => cases he

/-- A client and a worker. -/
def sampleRoles : Bool → Role
  | true => .client [⟨Sample.queue, Sample.job "a", false⟩, ⟨Sample.queue, Sample.job "b", true⟩]
  | false => .worker [Sample.queue] (some 5) 3 2

theorem sampleSetup : Setup sampleRoles [2, 3] (World.init 0) where
  async := by
    rintro (_ | _) r hr
    · cases hr
    · rcases List.mem_cons.1 hr with rfl | hr
      · rfl
      · rw [List.mem_singleton.1 hr]; rfl
  once := by
    rintro (_ | _)
    · exact List.nodup_nil
    · decide
  oneParty := by
    rintro (_ | _ | _) (_ | _ | _) n hi hj
    all_goals first | rfl | exact hi.elim | exact hj.elim | skip
    · obtain ⟨r, hr, -⟩ := hi; cases hr
    · obtain ⟨r, hr, -⟩ := hj; cases hr
  notQueued := fun i n q _ h => by simp [World.inRegistry_iff, World.init] at h
  queuedOnce := fun q q' n h => by simp [World.inRegistry_iff, World.init] at h
  records := by
    rintro (_ | _) r hr
    · cases hr
    · rcases List.mem_cons.1 hr with rfl | hr
      · exact Or.inl rfl
      · rw [List.mem_singleton.1 hr]; exact Or.inl rfl
  queuedRecords := fun q n h => by simp [World.inRegistry_iff, World.init] at h
  lasting := fun n d h => by simp [World.init] at h

theorem sample_delivered_at_most_once :
    Accounted sampleRoles "b" ((pool Sample.env sampleRoles [2, 3] (World.init 0)).exec
      [some true, some false, none, some true, some false, some true, some false]) ∧
    count (isDelivery "b") ((pool Sample.env sampleRoles [2, 3] (World.init 0)).exec
      [some true, some false, none, some true, some false, some true, some false]).log ≤ 1 :=
  have h := delivered_at_most_once Sample.env sampleSetup
    [some true, some false, none, some true, some false, some true, some false] "b"
    (Or.inr ⟨true, ⟨Sample.queue, Sample.job "b", true⟩, by simp [sampleRoles, Role.requests], rfl⟩)
  ⟨h.1, h.2.2.2.2⟩

end DailyScheduler.Delivery
