import DailyScheduler.Model.Effects

set_option autoImplicit false

/-! # What `dequeue_any` does on one queue when nobody interferes

`compact` forgets the names without a record, the pop takes the first of the others, and a name whose
record does not load is dropped. `dequeueRun` says so as a function of the world, and
`run_dequeueAny` that the program computes it.
-/

namespace DailyScheduler

open AtomicProg

/-- The world in which `compact` has forgotten the names without a record. -/
def compacted (q : QueueName) (w : World) : World :=
  w.setRegistry q .queued ((w.registry q .queued).filter fun p => w.jobExists p.2)

section Compact

variable (q : QueueName) (w : World)

theorem setRegistry_registry_self (k : RegistryKind) (z : SortedSet Int JobName) :
    (w.setRegistry q k z).registry q k = z := by
  simp [World.registry_setRegistry]

theorem setRegistry_setRegistry (k : RegistryKind) (z z' : SortedSet Int JobName) :
    (w.setRegistry q k z).setRegistry q k z' = w.setRegistry q k z' := by
  unfold World.setRegistry
  congr 1
  funext q' k'
  split
  · rfl
  · rename_i h
    exact if_neg h

theorem setRegistry_self (k : RegistryKind) {z : SortedSet Int JobName}
    (h : z.entries = (w.registry q k).entries) : w.setRegistry q k z = w := by
  have hz : z = w.registry q k := SortedSet.ext_entries h
  subst hz
  unfold World.setRegistry
  cases w
  congr 1
  funext q' k'
  split
  · rename_i h
    obtain ⟨rfl, rfl⟩ := h
    rfl
  · rfl

@[simp] theorem compacted_jobs : (compacted q w).jobs = w.jobs := rfl
@[simp] theorem compacted_now : (compacted q w).now = w.now := rfl

theorem compacted_entries : ((compacted q w).registry q .queued).entries
    = (w.registry q .queued).entries.filter fun p => w.jobExists p.2 := by
  rw [compacted, setRegistry_registry_self]
  rfl

/-- The loop of `compact` over the names `l`. -/
theorem run_compactLoop (l : List (Int × JobName)) :
    (Prog.forEach l fun p => do
      let found ← Prog.read fun w : World => w.jobExists p.2
      if found then pure () else (Registry.mk q .queued).delete p.2 : Py Unit).run w
      = ⟨.ok (), w.setRegistry q .queued ((w.registry q .queued).filter fun p =>
          w.jobExists p.2 || decide (p.2 ∉ l.map Prod.snd)), []⟩ := by
  induction l generalizing w with
  | nil =>
      rw [setRegistry_self q w .queued (by simp [SortedSet.filter])]
      rfl
  | cons a l ih =>
      have hmem : ∀ p : Int × JobName, p.2 ≠ a.2 →
          (p.2 ∈ (a :: l).map Prod.snd ↔ p.2 ∈ l.map Prod.snd) := by
        intro p hp
        rw [List.map_cons, List.mem_cons]
        exact or_iff_right hp
      have hbody : ∀ f : Unit → Py Unit, ((do
          let found ← Prog.read fun w : World => w.jobExists a.2
          if found then pure () else (Registry.mk q .queued).delete a.2 : Py Unit) >>= f).run w
          = (f ()).run (if w.jobExists a.2 then w else w.zrem q .queued a.2) := by
        intro f
        cases hx : w.jobExists a.2 <;> simp [Prog.run_bind, hx]
      refine (hbody _).trans ?_
      rw [ih]
      cases hx : w.jobExists a.2 with
      | true =>
          -- the name stays, whether it is looked at or not
          simp only [if_true]
          congr 2
          refine SortedSet.ext_entries (List.filter_congr fun p _ => ?_)
          by_cases hp : p.2 = a.2
          · simp [hp, hx]
          · simp only [hmem p hp]
      | false =>
          simp only [Bool.false_eq_true, if_false]
          have hjobs : ∀ n, (w.zrem q .queued a.2).jobExists n = w.jobExists n := fun n => rfl
          have hreg : (w.zrem q .queued a.2).registry q .queued
              = (w.registry q .queued).remove a.2 := setRegistry_registry_self ..
          simp only [hjobs, hreg]
          rw [World.zrem, setRegistry_setRegistry]
          congr 2
          refine SortedSet.ext_entries ?_
          show ((w.registry q .queued).entries.filter _).filter _
            = (w.registry q .queued).entries.filter _
          rw [List.filter_filter]
          refine List.filter_congr fun p _ => ?_
          by_cases hp : p.2 = a.2
          · simp [hp, hx]
          · simp only [hmem p hp]
            simp [hp]

@[simp] theorem run_compact :
    (Registry.mk q .queued).compact.run w = ⟨.ok (), compacted q w, []⟩ := by
  have hread : (Registry.mk q .queued).cleaned none w = w :=
    Registry.cleaned_of_not_expires rfl none w
  simp only [Registry.compact, Prog.run_bind, Registry.run_allWithTimestamps,
    Prog.Outcome.andThen_ok, hread, SortedSet.range_all, List.nil_append]
  rw [run_compactLoop]
  simp only [compacted]
  congr 2
  refine SortedSet.ext_entries (List.filter_congr fun p hp => ?_)
  have hmem : p.2 ∈ (w.registry q .queued).entries.map Prod.snd := List.mem_map.2 ⟨p, hp, rfl⟩
  simp [hmem]

end Compact

/-! ## The loop -/

namespace Queue

/-- What `dequeue_any` does on the queue `q`, a round for each unit of fuel. -/
def dequeueRun (env : Env) (q : Queue) (timeout : Option Int) :
    Nat → World → Prog.Outcome World Event PyError (Option (JobModel × Queue))
  | 0, w => ⟨.ok none, w, []⟩
  | fuel + 1, w =>
      if timeout = some 0 then
        ⟨.error (.valueError "Indefinite timeout not supported."), compacted q.name w, []⟩
      else match ((compacted q.name w).registry q.name .queued).popMin with
        | none => ⟨if timeout = none then .ok none else .error .dequeueTimeout,
            compacted q.name w, []⟩
        | some (p, z) =>
            let w' := (compacted q.name w).setRegistry q.name .queued z
            match JobModel.fetch env w' p.2 with
            | some job => ⟨.ok (some (job, q)), w', [.popped q.name p.2, .delivered p.2]⟩
            | none =>
                let r := dequeueRun env q timeout fuel w'
                ⟨r.val, r.state, .popped q.name p.2 :: .dropped p.2 :: r.trace⟩

/-- A pop from one queue. -/
theorem run_pop (q : Queue) (timeout : Option Int) (w : World) :
    (Registry.pop [q.name] timeout).run w
      = if timeout = some 0 then
          ⟨.error (.valueError "Indefinite timeout not supported."), w, []⟩
        else match (w.registry q.name .queued).popMin with
          | none => ⟨if timeout = none then .ok none else .error .dequeueTimeout, w, []⟩
          | some (p, z) => ⟨.ok (some (q.name, p.2)), w.setRegistry q.name .queued z,
              [.popped q.name p.2]⟩ := by
  unfold Registry.pop
  by_cases h0 : timeout = some 0
  · simp [h0]
  · rw [if_neg h0, if_neg h0]
    cases timeout with
    | none =>
        simp only [Option.isSome_none, Bool.false_eq_true, if_false, Registry.popNonBlocking,
          Registry.zpopmin, Prog.run_bind, Prog.run_command, Prog.Outcome.andThen_ok]
        cases hp : (w.registry q.name .queued).popMin with
        | none => simp [World.zpopmin, hp, Registry.poppedFrom]
        | some p => simp [World.zpopmin, hp, Registry.poppedFrom]
    | some t =>
        simp only [Option.isSome_some, if_true, Registry.bzpopmin, Prog.run_bind,
          Prog.run_command, Prog.Outcome.andThen_ok]
        cases hp : (w.registry q.name .queued).popMin with
        | none => simp [World.bzpopmin, World.zpopmin, hp]
        | some p => simp [World.bzpopmin, World.zpopmin, hp]

/-! ### Several queues -/

/-- The compaction at the start of a round, on all queues of the worker. -/
theorem run_compactAll (queues : List Queue) (w : World) :
    (Prog.forEach queues fun q : Queue => q.queuedJobRegistry.compact).run w
      = ⟨.ok (), queues.foldl (fun w q => compacted q.name w) w, []⟩ := by
  induction queues generalizing w with
  | nil => rfl
  | cons q queues ih =>
      show ((q.queuedJobRegistry.compact : Py Unit) >>= fun _ =>
        Prog.forEach queues fun q : Queue => q.queuedJobRegistry.compact).run w = _
      rw [Prog.run_bind, queuedJobRegistry, run_compact, Prog.Outcome.andThen_ok, ih]
      rfl

theorem run_popNonBlocking (qs : List QueueName) (w : World) :
    (Registry.popNonBlocking qs).run w = ⟨.ok (w.bzpopmin qs).1, (w.bzpopmin qs).2,
      (w.bzpopmin qs).1.toList.map fun p => Event.popped p.1 p.2⟩ := by
  induction qs generalizing w with
  | nil => rfl
  | cons q qs ih =>
      unfold Registry.popNonBlocking Registry.zpopmin World.bzpopmin
      rw [Prog.run_bind, Prog.run_command, Prog.Outcome.andThen_ok]
      rcases hp : w.zpopmin q .queued with ⟨_ | n, w'⟩
      · obtain ⟨rfl, -⟩ := World.zpopmin_none hp
        dsimp only
        rw [ih]
        rfl
      · rfl

/-- A pop from several queues takes the first name that a blocking one would. -/
theorem run_popAny (qs : List QueueName) (timeout : Option Int) (w : World) :
    (Registry.pop qs timeout).run w
      = if timeout = some 0 then
          ⟨.error (.valueError "Indefinite timeout not supported."), w, []⟩
        else match w.bzpopmin qs with
          | (none, w') => ⟨if timeout = none then .ok none else .error .dequeueTimeout, w', []⟩
          | (some p, w') => ⟨.ok (some p), w', [.popped p.1 p.2]⟩ := by
  unfold Registry.pop
  by_cases h0 : timeout = some 0
  · rw [if_pos h0, if_pos h0]
    rfl
  · rw [if_neg h0, if_neg h0]
    cases timeout with
    | none =>
        rw [Option.isSome_none, if_neg Bool.false_ne_true, run_popNonBlocking]
        rcases w.bzpopmin qs with ⟨_ | p, w'⟩ <;> rfl
    | some t =>
        rw [Option.isSome_some, if_pos rfl, Registry.bzpopmin, Prog.run_bind, Prog.run_command,
          Prog.Outcome.andThen_ok]
        rcases w.bzpopmin qs with ⟨_ | p, w'⟩ <;> rfl

/-- One round of `dequeue_any`. -/
theorem run_dequeueAny_succ (env : Env) (queues : List Queue) (timeout : Option Int) (fuel : Nat)
    (w : World) : (dequeueAny env queues timeout (fuel + 1)).run w
      = ((Registry.pop (queues.map Queue.name) timeout).run
          (queues.foldl (fun w q => compacted q.name w) w)).andThen (fun p =>
        match p with
        | none => pure none
        | some (key, n) =>
            match queues.find? (fun q => q.name = key) with
            | none => pure none
            | some q => do
                let job ← JobModel.get env n
                match job with
                | some job => do
                    Prog.emit (.delivered n)
                    pure (some (job, q))
                | none => do
                    Prog.emit (.dropped n)
                    dequeueAny env queues timeout fuel) := by
  rw [Queue.dequeueAny, Prog.run_bind, run_compactAll, Prog.Outcome.andThen_ok,
    Prog.run_bind]
  rfl

theorem run_dequeueAny (env : Env) (q : Queue) (timeout : Option Int) (fuel : Nat) (w : World) :
    (dequeueAny env [q] timeout fuel).run w = q.dequeueRun env timeout fuel w := by
  induction fuel generalizing w with
  | zero => rfl
  | succ fuel ih =>
      have hcompact : (Prog.forEach [q] fun q : Queue => q.queuedJobRegistry.compact).run w
          = ⟨.ok (), compacted q.name w, []⟩ := by
        show ((q.queuedJobRegistry.compact : Py Unit) >>= fun _ => Prog.ret ()).run w = _
        rw [Prog.run_bind, queuedJobRegistry, run_compact]
        rfl
      have hfind : [q].find? (fun q' => decide (q'.name = q.name)) = some q := by simp
      simp only [dequeueAny, dequeueRun, Prog.run_bind, hcompact, Prog.Outcome.andThen_ok,
        List.map_cons, List.map_nil, run_pop, List.nil_append]
      by_cases h0 : timeout = some 0
      · simp [h0]
      · rw [if_neg h0, if_neg h0]
        cases hp : ((compacted q.name w).registry q.name .queued).popMin with
        | none =>
            by_cases ht : timeout = none
            · simp [ht]
            · simp [ht]
        | some p =>
            obtain ⟨p, z⟩ := p
            simp only [Prog.Outcome.andThen_ok, hfind, Prog.run_bind, JobModel.run_get,
              List.nil_append]
            cases hj : JobModel.fetch env ((compacted q.name w).setRegistry q.name .queued z) p.2 with
            | none => simp [Prog.run_bind, ih]
            | some job => simp [Prog.run_bind]

end Queue

/-! ## What dequeuing leaves alone -/

/-- Only queued registries have changed, and no name has come to one. -/
structure Drawn (w w' : World) : Prop where
  jobs : w'.jobs = w.jobs
  now : w'.now = w.now
  registry : ∀ q k, k ≠ .queued → w'.registry q k = w.registry q k
  queued : ∀ q n, w'.inRegistry q .queued n → w.inRegistry q .queued n

theorem Drawn.refl (w : World) : Drawn w w := ⟨rfl, rfl, fun _ _ _ => rfl, fun _ _ => id⟩

theorem Drawn.trans {w w' w'' : World} (h : Drawn w w') (h' : Drawn w' w'') : Drawn w w'' where
  jobs := h'.jobs.trans h.jobs
  now := h'.now.trans h.now
  registry := fun q k hk => (h'.registry q k hk).trans (h.registry q k hk)
  queued := fun q n hn => h.queued q n (h'.queued q n hn)

theorem Drawn.setRegistry {w : World} {q : QueueName} {z : SortedSet Int JobName}
    (h : ∀ n, n ∈ z → w.inRegistry q .queued n) : Drawn w (w.setRegistry q .queued z) where
  jobs := rfl
  now := rfl
  registry := fun q' k hk => by rw [World.registry_setRegistry, if_neg fun h' => hk h'.2]
  queued := fun q' n hn => by
    unfold World.inRegistry at hn
    rw [World.registry_setRegistry] at hn
    split at hn
    · rename_i heq
      rw [heq.1]
      exact h n hn
    · exact hn

theorem drawn_compactAll (queues : List Queue) (w : World) :
    Drawn w (queues.foldl (fun w q => compacted q.name w) w) := by
  induction queues generalizing w with
  | nil => exact .refl w
  | cons q queues ih =>
      have hfirst : Drawn w (compacted q.name w) :=
        .setRegistry fun n hn => SortedSet.mem_of_mem_filter hn
      exact hfirst.trans (ih _)

theorem drawn_zpopmin {w w' : World} {q : QueueName} {n : JobName}
    (h : w.zpopmin q .queued = (some n, w')) : Drawn w w' := by
  obtain ⟨z, rfl, -, hscore⟩ := World.zpopmin_some h
  refine .setRegistry fun m hm => ?_
  have hz : (w.setRegistry q .queued z).registry q .queued = z := setRegistry_registry_self ..
  obtain ⟨s, hs⟩ := (SortedSet.mem_iff_exists _ _).1 hm
  have hold := hscore q .queued m
  rw [hz, hs] at hold
  split at hold
  · cases hold
  · exact (SortedSet.mem_iff_exists _ _).2 ⟨s, hold.symm⟩

/-- `dequeue_any` changes only queued registries, and the job it returns was in the queue it comes
with and is loaded from its record. -/
theorem dequeueAny_drawn (env : Env) (queues : List Queue) (timeout : Option Int) (fuel : Nat)
    (w : World) : Drawn w ((Queue.dequeueAny env queues timeout fuel).exec w) ∧
      ∀ j q, ((Queue.dequeueAny env queues timeout fuel).run w).val = .ok (some (j, q)) →
        q ∈ queues ∧ w.inRegistry q.name .queued j.name ∧
          JobModel.fetch env w j.name = some j := by
  induction fuel generalizing w with
  | zero => exact ⟨.refl w, fun j q h => by cases h⟩
  | succ fuel ih =>
      unfold Prog.exec
      rw [Queue.run_dequeueAny_succ, Queue.run_popAny]
      have hcompact := drawn_compactAll queues w
      generalize queues.foldl (fun w q => compacted q.name w) w = w₁ at hcompact ⊢
      by_cases h0 : timeout = some 0
      · rw [if_pos h0]
        exact ⟨hcompact, fun j q h => by cases h⟩
      rw [if_neg h0]
      rcases hp : w₁.bzpopmin (queues.map Queue.name) with ⟨_ | ⟨key, n⟩, w₂⟩
      · -- nothing to take
        have hsame : w₂ = w₁ := World.bzpopmin_none hp
        subst hsame
        by_cases ht : timeout = none
        · simp only [ht, if_true, Prog.Outcome.andThen_ok]
          exact ⟨hcompact, fun j q h => by cases h⟩
        · simp only [ht, if_false, Prog.Outcome.andThen_error]
          exact ⟨hcompact, fun j q h => by cases h⟩
      · obtain ⟨-, hpop⟩ := World.bzpopmin_some hp
        have hin : w₁.inRegistry key .queued n := by
          obtain ⟨-, -, hin, -⟩ := World.zpopmin_some hpop
          exact hin
        have hdrawn : Drawn w w₂ := hcompact.trans (drawn_zpopmin hpop)
        simp only [Prog.Outcome.andThen_ok]
        cases hfind : queues.find? (fun q => decide (q.name = key)) with
        | none => exact ⟨hdrawn, fun j q h => by cases h⟩
        | some q =>
            have hq : q ∈ queues := List.mem_of_find?_eq_some hfind
            have hkey : q.name = key := by simpa using List.find?_some hfind
            simp only [Prog.run_bind, JobModel.run_get, Prog.Outcome.andThen_ok]
            cases hj : JobModel.fetch env w₂ n with
            | none =>
                simp only [Prog.run_bind, Prog.run_emit, Prog.Outcome.andThen_ok]
                obtain ⟨hrest, hjob⟩ := ih w₂
                refine ⟨hdrawn.trans hrest, fun j q' hr => ?_⟩
                obtain ⟨hmem, hqueued, hfetch⟩ := hjob j q' hr
                refine ⟨hmem, hdrawn.queued _ _ hqueued, ?_⟩
                unfold JobModel.fetch at hfetch ⊢
                rw [← hdrawn.jobs]
                exact hfetch
            | some job =>
                refine ⟨hdrawn, fun j q' hr => ?_⟩
                cases hr
                have hname : job.name = n := JobModel.name_of_fetch hj
                refine ⟨hq, ?_, ?_⟩
                · rw [hkey, hname]
                  exact hcompact.queued _ _ hin
                · unfold JobModel.fetch at hj ⊢
                  rw [hname, ← hdrawn.jobs]
                  exact hj

end DailyScheduler
