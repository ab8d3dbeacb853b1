import DailyScheduler.Lib.Answers
import DailyScheduler.Lib.Rotation
import DailyScheduler.Model.Worker
import DailyScheduler.Queues.Priority

set_option autoImplicit false

/-! # Serving the queues in turn

A worker with the round-robin strategy dequeues from its queues in their order, and after a job of one
of them its list begins behind that queue. `dequeue_any` takes from a queue only when no queue before
it had a job, whatever others do meanwhile, so a queue that always has a job is served in turn.
-/

namespace DailyScheduler.RoundRobin

open AtomicProg Priority

/-! ## A turn of the worker -/

/-- One call of `dequeue_any` by the worker, and how it ends. -/
structure Turn where
  timeout : Option Int
  fuel : Nat
  val : Except PyError (Option (JobModel × Queue))

/-- The queue of the job, when there is one. -/
def Turn.served (t : Turn) : Option Queue :=
  match t.val with
  | .ok (some (_, q)) => some q
  | _ => none

/-- Both ways to be a worker that serves its queues in turn. -/
def InTurn (kind : Worker.Kind) : Prop :=
  kind = .worker (some .roundRobin) ∨ kind = .roundRobinWorker

/-- `_ordered_queues` after a turn. -/
def step (shuffle : List Queue → List Queue) (kind : Worker.Kind) (orderedQueues : List Queue)
    (t : Turn) : List Queue :=
  match t.served with
  | none => orderedQueues
  | some q =>
      match kind.reorder shuffle q orderedQueues with
      | .ok l => l
      | .error _ => orderedQueues

/-- The turn may end as it does, with any steps of others between its own. -/
def Possible (env : Env) (orderedQueues : List Queue) (t : Turn) : Prop :=
  (Queue.dequeueAny env orderedQueues t.timeout t.fuel).Answers (fun _ => True) t.val

/-- The turn may end as it does, and if it serves another queue then `p` holds a job all along. -/
def PossibleWith (env : Env) (p : Queue) (orderedQueues : List Queue) (t : Turn) : Prop :=
  Possible env orderedQueues t ∧ ∀ q, t.served = some q → q ≠ p →
    (Queue.dequeueAny env orderedQueues t.timeout t.fuel).Answers (Holds p) t.val

theorem exists_of_served {t : Turn} {q : Queue} (h : t.served = some q) :
    ∃ job, t.val = .ok (some (job, q)) := by
  unfold Turn.served at h
  split at h
  · rename_i job q' hval
    cases h
    exact ⟨job, hval⟩
  · cases h

/-! ## Whom a turn serves -/

section Served

variable {env : Env} {p q : Queue} {queues : List Queue} {I : World → Prop}

/-- The position of a queue is the position of its name. -/
theorem idxOf_map_name (hnodup : (queues.map Queue.name).Nodup) (hq : q ∈ queues) :
    (queues.map Queue.name).idxOf q.name = queues.idxOf q := by
  obtain ⟨a, b, rfl, ha⟩ := List.eq_append_cons_of_mem hq
  have hname : q.name ∉ a.map Queue.name := by
    rw [List.map_append, List.map_cons, List.nodup_append] at hnodup
    intro hmem
    exact hnodup.2.2 q.name hmem q.name List.mem_cons_self rfl
  rw [List.map_append, List.map_cons, List.idxOf_append_of_notMem hname,
    List.idxOf_append_of_notMem ha, List.idxOf_cons_self, List.idxOf_cons_self, List.length_map]

/-- Where a name waits, a pop does not pass its queue. -/
theorem bzpopmin_of_inRegistry {w : World} {n : JobName} {names : List QueueName}
    {name : QueueName} (hin : w.inRegistry name .queued n) (hname : name ∈ names) :
    ∃ key m, (w.bzpopmin names).1 = some (key, m) ∧ names.idxOf key ≤ names.idxOf name := by
  induction names with
  | nil => cases hname
  | cons key names ih =>
      unfold World.bzpopmin
      rcases hp : w.zpopmin key .queued with ⟨_ | m, w'⟩
      · obtain ⟨-, hempty⟩ := World.zpopmin_none hp
        have hne : key ≠ name := by
          rintro rfl
          exact hempty n hin
        obtain ⟨key', m, hm, hle⟩ := ih ((List.mem_cons.1 hname).resolve_left fun h => hne h.symm)
        refine ⟨key', m, hm, ?_⟩
        rw [List.idxOf_cons_ne names hne]
        by_cases hkey : key = key'
        · rw [hkey, List.idxOf_cons_self]
          exact Nat.zero_le _
        · rw [List.idxOf_cons_ne names hkey]
          omega
      · refine ⟨key, m, rfl, ?_⟩
        rw [List.idxOf_cons_self]
        exact Nat.zero_le _

/-- What the non-blocking pop returns while a queue holds a job. -/
theorem popNonBlocking_answers {names : List QueueName} {r : Option (QueueName × JobName)}
    (hp : p.name ∈ names) (h : (Registry.popNonBlocking names).Answers (Holds p) (.ok r)) :
    ∃ key m, r = some (key, m) ∧ names.idxOf key ≤ names.idxOf p.name := by
  induction names with
  | nil => cases hp
  | cons key names ih =>
      obtain ⟨m, hm, hrest⟩ := h.bind_ok
      obtain ⟨s, ⟨n, hin, -⟩, hs⟩ := hm.command
      cases m with
      | some m =>
          cases hrest
          refine ⟨key, m, rfl, ?_⟩
          rw [List.idxOf_cons_self]
          exact Nat.zero_le _
      | none =>
          -- the queue `key` was empty, so it is not `p`
          have hzpop : s.zpopmin key .queued = (none, (s.zpopmin key .queued).2) := by
            have hfst : (s.zpopmin key .queued).1 = none := (Except.ok.inj hs).symm
            exact Prod.ext hfst rfl
          have hne : key ≠ p.name := by
            rintro rfl
            exact (World.zpopmin_none hzpop).2 n hin
          obtain ⟨key', m, hm, hle⟩ := ih ((List.mem_cons.1 hp).resolve_left fun h => hne h.symm) hrest
          refine ⟨key', m, hm, ?_⟩
          rw [List.idxOf_cons_ne names hne]
          by_cases hkey : key = key'
          · rw [hkey, List.idxOf_cons_self]
            exact Nat.zero_le _
          · rw [List.idxOf_cons_ne names hkey]
            omega

/-- What the pop returns while a queue holds a job. -/
theorem pop_answers {names : List QueueName} {timeout : Option Int}
    {r : Option (QueueName × JobName)} (hp : p.name ∈ names)
    (h : (Registry.pop names timeout).Answers (Holds p) (.ok r)) :
    ∃ key m, r = some (key, m) ∧ names.idxOf key ≤ names.idxOf p.name := by
  unfold Registry.pop at h
  by_cases h0 : timeout = some 0
  · rw [if_pos h0] at h
    cases h
  · rw [if_neg h0] at h
    by_cases hsome : timeout.isSome = true
    · rw [if_pos hsome] at h
      obtain ⟨m, hm, hrest⟩ := h.bind_ok
      obtain ⟨s, ⟨n, hin, -⟩, hs⟩ := hm.command
      obtain ⟨key, m', hm', hle⟩ := bzpopmin_of_inRegistry hin hp
      have hval : m = some (key, m') := by
        rw [← hm']
        exact Except.ok.inj hs
      subst hval
      cases hrest
      exact ⟨key, m', rfl, hle⟩
    · rw [if_neg hsome] at h
      exact popNonBlocking_answers hp h

/-- A round that returns a job found it in the queue whose key was popped, or a later one did. -/
theorem round_answers {timeout : Option Int} {fuel : Nat} {job : JobModel}
    (h : (Queue.dequeueAny env queues timeout (fuel + 1)).Answers I (.ok (some (job, q)))) :
    (∃ key n, (Registry.pop (queues.map Queue.name) timeout).Answers I (.ok (some (key, n))) ∧
      queues.find? (fun q => q.name = key) = some q) ∨
    (Queue.dequeueAny env queues timeout fuel).Answers I (.ok (some (job, q))) := by
  unfold Queue.dequeueAny at h
  obtain ⟨-, -, h⟩ := h.bind_ok
  obtain ⟨r, hpop, h⟩ := h.bind_ok
  cases r with
  | none => cases h
  | some r =>
      obtain ⟨key, n⟩ := r
      dsimp only at h
      cases hfind : queues.find? (fun q => decide (q.name = key)) with
      | none =>
          rw [hfind] at h
          cases h
      | some q' =>
          rw [hfind] at h
          obtain ⟨found, -, h⟩ := h.bind_ok
          cases found with
          | some job' =>
              obtain ⟨-, -, h⟩ := h.bind_ok
              cases h
              exact .inl ⟨key, n, hpop, hfind⟩
          | none =>
              obtain ⟨-, -, h⟩ := h.bind_ok
              exact .inr h

/-- A job comes from one of the queues. -/
theorem mem_of_answers {timeout : Option Int} {fuel : Nat} {job : JobModel}
    (h : (Queue.dequeueAny env queues timeout fuel).Answers I (.ok (some (job, q)))) :
    q ∈ queues := by
  induction fuel with
  | zero => cases h
  | succ fuel ih =>
      rcases round_answers h with ⟨key, n, -, hfind⟩ | h
      · exact List.mem_of_find?_eq_some hfind
      · exact ih h

/-- While `p` holds a job, no job comes from a queue behind `p`. -/
theorem idxOf_le_of_answers (hnodup : (queues.map Queue.name).Nodup) (hp : p ∈ queues)
    {timeout : Option Int} {fuel : Nat} {job : JobModel}
    (h : (Queue.dequeueAny env queues timeout fuel).Answers (Holds p) (.ok (some (job, q)))) :
    queues.idxOf q ≤ queues.idxOf p := by
  induction fuel with
  | zero => cases h
  | succ fuel ih =>
      rcases round_answers h with ⟨key, n, hpop, hfind⟩ | h
      · obtain ⟨key', m, hr, hle⟩ := pop_answers (List.mem_map_of_mem hp) hpop
        cases hr
        have hname : q.name = key := by simpa using List.find?_some hfind
        rw [← hname, idxOf_map_name hnodup (List.mem_of_find?_eq_some hfind),
          idxOf_map_name hnodup hp] at hle
        exact hle
      · exact ih h

end Served

/-! ## A turn that nobody interferes with -/

section Alone

variable {env : Env} {p q : Queue} {queues : List Queue} {I : World → Prop}

/-- The turn that a run of `dequeue_any` alone makes. -/
def turnOf (env : Env) (queues : List Queue) (timeout : Option Int) (fuel : Nat) (w : World) :
    Turn :=
  ⟨timeout, fuel, ((Queue.dequeueAny env queues timeout fuel).run w).val⟩

theorem compact_answers (q : Queue) {w : World} (hw : I w) :
    q.queuedJobRegistry.compact.Answers I (.ok ()) := by
  refine Prog.Answers.andThen (p := q.queuedJobRegistry.allWithTimestamps 0 (-1))
    (b := (w.registry q.name .queued).range 0 (-1)) ⟨w, hw, rfl⟩ ?_
  refine Prog.Answers.forEach fun e _ => ⟨w, hw, ?_⟩
  show (if w.jobExists e.2 then pure () else q.queuedJobRegistry.delete e.2 : Py Unit).Answers I _
  split
  · rfl
  · exact ⟨w, hw, rfl⟩

theorem popNonBlocking_answers_run {names : List QueueName} {w : World} (hw : I w) :
    (Registry.popNonBlocking names).Answers I (.ok (w.bzpopmin names).1) := by
  induction names with
  | nil => rfl
  | cons key names ih =>
      unfold Registry.popNonBlocking World.bzpopmin
      rcases hp : w.zpopmin key .queued with ⟨_ | m, w'⟩
      · have hnone : (Registry.zpopmin key).Answers I (.ok none) :=
          Prog.answers_command hw (congrArg Prod.fst hp)
        exact hnone.andThen ih
      · have hsome : (Registry.zpopmin key).Answers I (.ok (some m)) :=
          Prog.answers_command hw (congrArg Prod.fst hp)
        exact hsome.andThen rfl

theorem pop_answers_run {names : List QueueName} {timeout : Option Int} {w : World}
    {r : QueueName × JobName} (hw : I w) (h0 : timeout ≠ some 0)
    (h : (w.bzpopmin names).1 = some r) : (Registry.pop names timeout).Answers I (.ok (some r)) := by
  unfold Registry.pop
  rw [if_neg h0]
  by_cases hsome : timeout.isSome = true
  · rw [if_pos hsome]
    have hr : (Registry.bzpopmin names).Answers I (.ok (some r)) := Prog.answers_command hw h
    exact hr.andThen rfl
  · rw [if_neg hsome, ← h]
    exact popNonBlocking_answers_run hw

/-- Alone it is enough that the queue holds a job when the turn begins: a turn that serves another
queue takes nothing from it. -/
theorem answers_of_holds {timeout : Option Int} {fuel : Nat} {w : World} {job : JobModel}
    (hp : Holds p w)
    (h : ((Queue.dequeueAny env queues timeout fuel).run w).val = .ok (some (job, q))) :
    (Queue.dequeueAny env queues timeout fuel).Answers (Holds p) (.ok (some (job, q))) := by
  induction fuel generalizing w with
  | zero => cases h
  | succ fuel ih =>
      have hp' := ((discards_compactAll queues w).holds_iff p).2 hp
      rw [Queue.run_dequeueAny_succ, Queue.run_popAny] at h
      generalize queues.foldl (fun w q => compacted q.name w) w = w₁ at hp' h
      by_cases h0 : timeout = some 0
      · rw [if_pos h0] at h
        cases h
      · rw [if_neg h0] at h
        unfold Queue.dequeueAny
        refine Prog.Answers.andThen (Prog.Answers.forEach fun q _ => compact_answers q hp) ?_
        rcases hpop : w₁.bzpopmin (queues.map Queue.name) with ⟨_ | ⟨key, n⟩, w₂⟩
        · rw [hpop] at h
          by_cases hnone : timeout = none
          · rw [if_pos hnone] at h
            cases h
          · rw [if_neg hnone] at h
            cases h
        · rw [hpop] at h
          have hfst : (w₁.bzpopmin (queues.map Queue.name)).1 = some (key, n) := by rw [hpop]
          refine (pop_answers_run hp' h0 hfst).andThen ?_
          rw [Prog.Outcome.andThen_ok] at h
          dsimp only at h ⊢
          cases hfind : queues.find? (fun q => decide (q.name = key)) with
          | none =>
              rw [hfind] at h
              cases h
          | some q' =>
              rw [hfind] at h
              dsimp only at h ⊢
              rw [Prog.run_bind, JobModel.run_get, Prog.Outcome.andThen_ok] at h
              obtain ⟨-, hz⟩ := World.bzpopmin_some hpop
              obtain ⟨z, hw₂, -, hscores⟩ := World.zpopmin_some hz
              have hjobs : w₂.jobs = w₁.jobs := by
                rw [hw₂]
                rfl
              have hfetch : JobModel.fetch env w₁ n = JobModel.fetch env w₂ n := by
                unfold JobModel.fetch
                rw [hjobs]
              have hget : (JobModel.get env n).Answers (Holds p) (.ok (JobModel.fetch env w₂ n)) :=
                ⟨w₁, hp', congrArg Except.ok hfetch.symm⟩
              refine hget.andThen ?_
              cases hjob : JobModel.fetch env w₂ n with
              | some job' =>
                  rw [hjob] at h
                  exact ⟨w₁, hp', h.symm⟩
              | none =>
                  rw [hjob] at h
                  -- the popped name does not load, so it is not the job that `p` holds
                  have hp₂ : Holds p w₂ := by
                    obtain ⟨m, hin, hload⟩ := hp'
                    have hload₂ : w₂.loadable m := by
                      unfold World.loadable at hload ⊢
                      rwa [hjobs]
                    refine ⟨m, ?_, hload₂⟩
                    rw [World.inRegistry_iff] at hin ⊢
                    rw [hscores, if_neg]
                    · exact hin
                    · rintro ⟨-, -, rfl⟩
                      exact JobModel.fetch_eq_none_iff.1 hjob hload₂
                  exact ⟨w₁, hp', ih hp₂ h⟩

theorem possibleWith_turnOf {timeout : Option Int} {fuel : Nat} {w : World} (hp : Holds p w) :
    PossibleWith env p queues (turnOf env queues timeout fuel w) := by
  refine ⟨Prog.answers_run _ w, fun q hq _ => ?_⟩
  obtain ⟨job, hval⟩ := exists_of_served hq
  have h : ((Queue.dequeueAny env queues timeout fuel).run w).val = .ok (some (job, q)) := hval
  show (Queue.dequeueAny env queues timeout fuel).Answers (Holds p)
    ((Queue.dequeueAny env queues timeout fuel).run w).val
  rw [h]
  exact answers_of_holds hp h

end Alone

/-! ## Runs -/

section Run

variable {env : Env} {shuffle : List Queue → List Queue} {kind : Worker.Kind} {p : Queue}
  {orderedQueues : List Queue} {t : Turn} {turns : List Turn}

theorem mem_of_served {q : Queue} (h : Possible env orderedQueues t) (hq : t.served = some q) :
    q ∈ orderedQueues := by
  obtain ⟨job, hval⟩ := exists_of_served hq
  unfold Possible at h
  rw [hval] at h
  exact mem_of_answers h

/-- A turn serves a queue, or changes nothing. -/
theorem step_eq (hkind : InTurn kind) (h : Possible env orderedQueues t) :
    step shuffle kind orderedQueues t
      = t.served.toList.foldl (fun l q => Rotation.past q l) orderedQueues := by
  unfold step
  cases hq : t.served with
  | none => rfl
  | some q =>
      have hmem : q ∈ orderedQueues := mem_of_served h hq
      have hrotate : Worker.rotateQueues q orderedQueues = .ok (Rotation.past q orderedQueues) := by
        unfold Worker.rotateQueues Rotation.past
        cases hidx : orderedQueues.idxOf? q with
        | none => exact absurd hmem (List.idxOf?_eq_none_iff.1 hidx)
        | some pos =>
            rw [List.idxOf_eq_getD_idxOf?, hidx]
            rfl
      have hreorder : kind.reorder shuffle q orderedQueues
          = .ok (Rotation.past q orderedQueues) := by
        rcases hkind with rfl | rfl
        · exact hrotate
        · exact hrotate
      dsimp only
      rw [hreorder]
      rfl

/-- A turn permutes the queues. -/
theorem step_perm (hkind : InTurn kind) (h : Possible env orderedQueues t) :
    (step shuffle kind orderedQueues t).Perm orderedQueues := by
  rw [step_eq hkind h]
  cases t.served with
  | none => exact List.Perm.refl _
  | some q => exact Rotation.past_perm q orderedQueues

/-- The order of the queues is always a permutation of the worker's queues. -/
theorem perm_along (hkind : InTurn kind) {queues : List Queue} (hperm : orderedQueues.Perm queues)
    (h : Run.Meets (step shuffle kind) (Possible env) orderedQueues turns) :
    Run.Along (step shuffle kind) (fun l => l.Perm queues) orderedQueues turns :=
  Run.along_of_step (P := fun l => l.Perm queues)
    (fun _ _ hl ht => (step_perm hkind ht).trans hl) hperm h

/-- Whom the turns serve while `p` holds a job. -/
theorem before_of_meets (hkind : InTurn kind) (hnodup : (orderedQueues.map Queue.name).Nodup)
    (hp : p ∈ orderedQueues)
    (h : Run.Meets (step shuffle kind) (PossibleWith env p) orderedQueues turns) :
    Rotation.Before p orderedQueues (turns.filterMap Turn.served) := by
  induction turns generalizing orderedQueues with
  | nil => trivial
  | cons t turns ih =>
      obtain ⟨⟨ht, hwith⟩, hrest⟩ := h
      have hperm : (step shuffle kind orderedQueues t).Perm orderedQueues := step_perm hkind ht
      have hlater := ih ((hperm.map Queue.name).nodup_iff.2 hnodup) (hperm.mem_iff.2 hp) hrest
      rw [step_eq hkind ht] at hlater
      cases hq : t.served with
      | none =>
          rw [hq] at hlater
          rw [List.filterMap_cons_none hq]
          exact hlater
      | some q =>
          rw [hq] at hlater hwith
          rw [List.filterMap_cons_some hq]
          refine ⟨?_, hlater⟩
          by_cases hqp : q = p
          · rw [hqp]
          · obtain ⟨job, hval⟩ := exists_of_served hq
            have hanswers := hwith q rfl hqp
            rw [hval] at hanswers
            exact idxOf_le_of_answers hnodup hp hanswers

theorem mem_served {q : Queue} : q ∈ turns.filterMap Turn.served ↔ ∃ t ∈ turns, t.served = some q :=
  List.mem_filterMap

/-- As many successful turns as there are queues serve `p`, if it holds a job in each. -/
theorem served_of_length (hkind : InTurn kind) (hnodup : (orderedQueues.map Queue.name).Nodup)
    (hp : p ∈ orderedQueues)
    (h : Run.Meets (step shuffle kind) (PossibleWith env p) orderedQueues turns)
    (hlen : orderedQueues.length ≤ (turns.filterMap Turn.served).length) :
    ∃ t ∈ turns, t.served = some p := by
  rw [← mem_served]
  by_contra hnot
  have hle := Rotation.length_le_idxOf hp (before_of_meets hkind hnodup hp h) hnot
  have hlt : orderedQueues.idxOf p < orderedQueues.length := List.idxOf_lt_length_of_mem hp
  omega

/-- Between two turns for another queue `p` is served, if it holds a job from the first to the
second. -/
theorem served_between (hkind : InTurn kind) (hnodup : (orderedQueues.map Queue.name).Nodup)
    (hp : p ∈ orderedQueues) {q : Queue} (hne : p ≠ q) {t' : Turn} (ht : Possible env orderedQueues t)
    (hq : t.served = some q) (hq' : t'.served = some q)
    (h : Run.Meets (step shuffle kind) (PossibleWith env p) (step shuffle kind orderedQueues t)
      (turns ++ [t'])) :
    ∃ t ∈ turns, t.served = some p := by
  have hmem : q ∈ orderedQueues := mem_of_served ht hq
  have hstep : step shuffle kind orderedQueues t = Rotation.past q orderedQueues := by
    rw [step_eq hkind ht, hq]
    rfl
  have hbehind : (Rotation.past q orderedQueues).idxOf p < (Rotation.past q orderedQueues).idxOf q :=
    Rotation.idxOf_lt_past_self hnodup.of_map hmem hp hne
  have hperm := Rotation.past_perm q orderedQueues
  rw [hstep] at h
  have hbefore := before_of_meets hkind ((hperm.map Queue.name).nodup_iff.2 hnodup)
    (hperm.mem_iff.2 hp) h
  rw [← mem_served]
  by_contra hnot
  have hnot' : p ∉ (turns ++ [t']).filterMap Turn.served := by
    rw [List.filterMap_append, List.mem_append]
    rintro (hin | hin)
    · exact hnot hin
    · obtain ⟨x, hx, hserved⟩ := List.mem_filterMap.1 hin
      rw [List.mem_singleton.1 hx, hq'] at hserved
      exact hne (Option.some.inj hserved).symm
  refine Rotation.notMem_of_behind (hperm.mem_iff.2 hp) (hperm.mem_iff.2 hmem) hbehind hbefore hnot' ?_
  rw [mem_served]
  exact ⟨t', by simp, hq'⟩

end Run

/-- **Round robin is fair.** Whatever others do meanwhile, the order of the queues is a permutation of
the worker's queues all along; `p` is served in one of as many consecutive successful turns as there
are queues, if it holds a job in each of them; and it is served between two turns for another queue,
if it holds a job from the first to the second. -/
theorem fair (env : Env) (shuffle : List Queue → List Queue) {kind : Worker.Kind}
    (hkind : InTurn kind) {queues : List Queue} (hnodup : (queues.map Queue.name).Nodup)
    {before : List Turn} (hbefore : Run.Meets (step shuffle kind) (Possible env) queues before) :
    Run.Along (step shuffle kind) (fun l => l.Perm queues) queues before ∧
    (∀ p ∈ queues, ∀ turns,
      Run.Meets (step shuffle kind) (PossibleWith env p)
        (Run.last (step shuffle kind) queues before) turns →
      (turns.filterMap Turn.served).length = queues.length → ∃ t ∈ turns, t.served = some p) ∧
    ∀ p ∈ queues, ∀ q t turns t', p ≠ q →
      Possible env (Run.last (step shuffle kind) queues before) t →
      t.served = some q → t'.served = some q →
      Run.Meets (step shuffle kind) (PossibleWith env p)
        (step shuffle kind (Run.last (step shuffle kind) queues before) t) (turns ++ [t']) →
      ∃ t ∈ turns, t.served = some p := by
  have halong := perm_along hkind (List.Perm.refl queues) hbefore
  have hperm : (Run.last (step shuffle kind) queues before).Perm queues := halong.last
  have hnodup' := (hperm.map Queue.name).nodup_iff.2 hnodup
  refine ⟨halong, fun p hp turns hturns hlen => ?_, fun p hp q t turns t' hne ht hq hq' hturns => ?_⟩
  · refine served_of_length hkind hnodup' (hperm.mem_iff.2 hp) hturns ?_
    rw [hlen, hperm.length_eq]
  · exact served_between hkind hnodup' (hperm.mem_iff.2 hp) hne ht hq hq' hturns

/-! ## Two queues with a job each -/

/-- In the queue `p` there is the job `a`, in the queue `q` the job `b`. -/
def sampleWorld : World :=
  ((Sample.worldWith ["a", "b"]).zadd "p" .queued "a" 1).zadd "q" .queued "b" 2

/-- The order of the queues after `turns`. -/
def sampleOrder (turns : List Turn) : List Queue :=
  Run.last (step id .roundRobinWorker) sampleQueues turns

def sampleTurn (turns : List Turn) : Turn :=
  turnOf Sample.env (sampleOrder turns) none 2 sampleWorld

def firstTurn : Turn := sampleTurn []

def secondTurn : Turn := sampleTurn [firstTurn]

def thirdTurn : Turn := sampleTurn [firstTurn, secondTurn]

theorem sample_holds : Holds Sample.queue sampleWorld := by
  have hload : sampleWorld.loadable "b" := ⟨_, rfl, rfl⟩
  refine ⟨"b", ?_, hload⟩
  decide +kernel

theorem sampleTurn_possibleWith (turns : List Turn) :
    PossibleWith Sample.env Sample.queue (sampleOrder turns) (sampleTurn turns) :=
  possibleWith_turnOf sample_holds

/-- The queue `q` has its turn after `p`, and before `p` has its second. -/
theorem sample_fair :
    (∃ t ∈ [firstTurn, secondTurn], t.served = some Sample.queue) ∧
      ∃ t ∈ [secondTurn], t.served = some Sample.queue := by
  have h := @fair Sample.env id .roundRobinWorker (.inr rfl) sampleQueues (by decide) [] trivial
  have hmem : Sample.queue ∈ sampleQueues := by decide
  refine ⟨?_, ?_⟩
  · refine h.2.1 Sample.queue hmem [firstTurn, secondTurn] ?_ (by decide +kernel)
    exact ⟨sampleTurn_possibleWith [], sampleTurn_possibleWith [firstTurn], trivial⟩
  · refine h.2.2 Sample.queue hmem ⟨"p", true⟩ firstTurn [secondTurn] thirdTurn (by decide)
      (sampleTurn_possibleWith []).1 (by decide +kernel) (by decide +kernel) ?_
    exact ⟨sampleTurn_possibleWith [firstTurn], sampleTurn_possibleWith [firstTurn, secondTurn], trivial⟩

end DailyScheduler.RoundRobin
