import DailyScheduler.Records.Roster

set_option autoImplicit false

/-! # The roster under interleavings

Any number of workers save, beat, delete themselves and clean up, and the records of any of them expire, in
any interleaving of their pipelines. A cleanup looks names up that it read before, and takes them out of the
sets later still, when a worker of such a name may have come back. So a name may be lost for which a record
has expired once; for any other name the log of what happened says whether it is on the roster.
-/

namespace DailyScheduler.Roster

open AtomicProg

/-! ## The parties -/

/-- What a worker does to its own record, and to those of others. -/
inductive Step where
  | save (writes : Bool)
  | heartbeat
  | setField
  | delete
  | cleanup (queueName : Option QueueName)

/-- The operation for the worker `n`; `WorkerModel.heartbeat` saves all fields. -/
def Step.program (n : WorkerName) (queueNames : List QueueName) : Step → RosterProg Unit
  | .save writes => Roster.save n queueNames writes
  | .heartbeat => Roster.save n queueNames true
  | .setField => Roster.setField n
  | .delete => Roster.delete n queueNames
  | .cleanup queueName => Roster.cleanup queueName

/-- A worker object, which is saved as a whole when it is made, or the broker, where records expire. -/
inductive Party where
  | worker (n : WorkerName) (queueNames : List QueueName) (steps : List Step)
  | broker (names : List WorkerName)

def Party.program : Party → RosterProg Unit
  | .worker n queueNames steps => do
      save n queueNames true
      Prog.forEach steps fun step => step.program n queueNames
  | .broker names => Prog.forEach names fun n =>
      Prog.command (fun r => ((), r.expire n)) fun _ => [.expired n]

variable {ι : Type}

/-- All of them, and no worker known so far. -/
def pool (parties : ι → Party) : Pool ι State Event PyError Unit :=
  ⟨fun i => (parties i).program, State.init, []⟩

/-! ## What the log says -/

abbrev Log (ι : Type) := List (ι × Event)

/-- The record of the worker has neither expired nor been deleted. -/
def Unbroken (n : WorkerName) (t : Log ι) : Prop := ∀ e ∈ t, e.2 ≠ .expired n ∧ e.2 ≠ .deleted n

def Saved (n : WorkerName) (t : Log ι) : Prop := ∃ i, (i, Event.saved n) ∈ t

/-- The worker was saved after it was deleted the last time. -/
def SavedSince (n : WorkerName) (t : Log ι) : Prop :=
  ∃ t₁ i t₂, t = t₁ ++ (i, Event.saved n) :: t₂ ∧ ∀ e ∈ t₂, e.2 ≠ .deleted n

/-- The worker a step is about. -/
def Event.name : Event → WorkerName
  | .saved n => n
  | .listed n _ => n
  | .deleted n => n
  | .expired n => n

theorem Unbroken.of_append {n : WorkerName} {t es : Log ι} (h : Unbroken n (t ++ es)) : Unbroken n t :=
  fun e he => h e (List.mem_append_left es he)

theorem Saved.append {n : WorkerName} {t : Log ι} (h : Saved n t) (es : Log ι) : Saved n (t ++ es) :=
  h.imp fun _ => List.mem_append_left es

theorem SavedSince.append {n : WorkerName} {t es : Log ι} (h : SavedSince n t)
    (hes : ∀ e ∈ es, e.2 ≠ .deleted n) : SavedSince n (t ++ es) := by
  obtain ⟨t₁, i, t₂, rfl, ht₂⟩ := h
  refine ⟨t₁, i, t₂ ++ es, by simp, fun e he => ?_⟩
  exact (List.mem_append.1 he).elim (ht₂ e) (hes e)

/-! ## The invariant -/

/-- A worker whose record has always been there is on the roster as soon as it is saved, and only then. -/
structure Present (n : WorkerName) (c : Config State (ι × Event)) : Prop where
  record : Saved n c.2 → c.1.record n = true
  all : Saved n c.2 → n ∈ c.1.all
  listed : ∀ i queueNames, (i, Event.listed n queueNames) ∈ c.2 → ∀ q ∈ queueNames, n ∈ c.1.ofQueue q
  known : (n ∈ c.1.all ∨ ∃ q, n ∈ c.1.ofQueue q) → Saved n c.2

structure Inv (n : WorkerName) (c : Config State (ι × Event)) : Prop where
  unbroken : Unbroken n c.2 → Present n c
  gone : n ∈ c.1.all → SavedSince n c.2

/-- A step that is not about the worker. -/
structure Quiet (n : WorkerName) (s s' : State) (es : List Event) : Prop where
  record : s'.record n = s.record n
  all : n ∈ s'.all ↔ n ∈ s.all
  ofQueue : ∀ q, n ∈ s'.ofQueue q ↔ n ∈ s.ofQueue q
  events : ∀ e ∈ es, e.name ≠ n

section Invariant

variable {n : WorkerName} {s s' : State} {t : Log ι} {es : List Event}

theorem saved_append_of_ne (i : ι) (hes : ∀ e ∈ es, e.name ≠ n) :
    Saved n (t ++ es.map (i, ·)) ↔ Saved n t := by
  constructor
  · rintro ⟨j, hj⟩
    rcases List.mem_append.1 hj with hj | hj
    · exact ⟨j, hj⟩
    · obtain ⟨e, he, heq⟩ := List.mem_map.1 hj
      cases heq
      exact absurd rfl (hes _ he)
  · exact fun h => h.append _

theorem Inv.quiet (h : Inv n (s, t)) (hq : Quiet n s s' es) (i : ι) : Inv n (s', t ++ es.map (i, ·)) := by
  constructor
  · intro hunbroken
    have hsaved := saved_append_of_ne (t := t) i hq.events
    have hpresent := h.unbroken hunbroken.of_append
    refine ⟨fun hs => ?_, fun hs => ?_, fun j queueNames hj q hqueue => ?_, fun hmem => ?_⟩
    · exact hq.record.trans (hpresent.record (hsaved.1 hs))
    · exact hq.all.2 (hpresent.all (hsaved.1 hs))
    · rcases List.mem_append.1 hj with hj | hj
      · exact (hq.ofQueue q).2 (hpresent.listed j queueNames hj q hqueue)
      · obtain ⟨e, he, heq⟩ := List.mem_map.1 hj
        cases heq
        exact absurd rfl (hq.events _ he)
    · rw [hsaved]
      apply hpresent.known
      exact hmem.imp hq.all.1 fun ⟨q, hmem⟩ => ⟨q, (hq.ofQueue q).1 hmem⟩
  · intro hmem
    refine (h.gone (hq.all.1 hmem)).append fun e he heq => ?_
    obtain ⟨e', he', rfl⟩ := List.mem_map.1 he
    exact hq.events e' he' (by rw [show e' = .deleted n from heq]; rfl)

/-- Its record may no longer be there, and it is on no list of all workers: nothing is claimed of it. -/
theorem Inv.of_broken {c : Config State (ι × Event)} (hbroken : ¬ Unbroken n c.2)
    (hgone : n ∈ c.1.all → SavedSince n c.2) : Inv n c :=
  ⟨fun h => absurd h hbroken, hgone⟩

/-- A save of the worker, by an object that writes its fields or knows that it was saved before. -/
theorem Inv.save (h : Inv n (s, t)) {writes : Bool} (hknown : writes = false → Unbroken n t → Saved n t)
    (i : ι) : Inv n (if writes then (s.addAll n).hset n else s.addAll n, t ++ [(i, .saved n)]) := by
  have hall : (if writes then (s.addAll n).hset n else s.addAll n).all = sadd s.all n := by
    cases writes <;> rfl
  have hqueues : (if writes then (s.addAll n).hset n else s.addAll n).ofQueue = s.ofQueue := by
    cases writes <;> rfl
  constructor
  · intro hunbroken
    have hpresent := h.unbroken hunbroken.of_append
    refine ⟨fun _ => ?_, fun _ => ?_, fun j queueNames hj q hqueue => ?_, fun _ => ⟨i, by simp⟩⟩
    · cases writes with
      | true => simp [State.hset]
      | false => exact hpresent.record (hknown rfl hunbroken.of_append)
    · show n ∈ State.all _
      rw [hall, mem_sadd]
      exact .inl rfl
    · show n ∈ State.ofQueue _ q
      rw [hqueues]
      rcases List.mem_append.1 hj with hj | hj
      · exact hpresent.listed j queueNames hj q hqueue
      · cases List.mem_singleton.1 hj
  · exact fun _ => ⟨t, i, [], rfl, nofun⟩

/-- Its name goes to its queues. -/
theorem Inv.list (h : Inv n (s, t)) (hsaved : Saved n t) (queueNames : List QueueName) (i : ι) :
    Inv n (s.addQueues n queueNames, t ++ [(i, .listed n queueNames)]) := by
  constructor
  · intro hunbroken
    have hpresent := h.unbroken hunbroken.of_append
    refine ⟨fun _ => hpresent.record hsaved, fun _ => hpresent.all hsaved,
      fun j queueNames' hj q hqueue => ?_, fun _ => hsaved.append _⟩
    show n ∈ if q ∈ queueNames then sadd (s.ofQueue q) n else s.ofQueue q
    split
    · rw [mem_sadd]
      exact .inl rfl
    · rename_i hnot
      rcases List.mem_append.1 hj with hj | hj
      · exact hpresent.listed j queueNames' hj q hqueue
      · cases List.mem_singleton.1 hj
        exact absurd hqueue hnot
  · intro hmem
    refine (h.gone hmem).append fun e he => ?_
    cases List.mem_singleton.1 he
    exact nofun

theorem Inv.setField (h : Inv n (s, t)) : Inv n (s.hset n, t) := by
  refine ⟨fun hunbroken => ?_, h.gone⟩
  have hpresent := h.unbroken hunbroken
  exact ⟨fun _ => by simp [State.hset], hpresent.all, hpresent.listed, hpresent.known⟩

theorem Inv.delete (queueNames : List QueueName) (i : ι) :
    Inv n (((s.hset n).removeAll [n]).removeQueues queueNames [n], t ++ [(i, .deleted n)]) := by
  apply Inv.of_broken
  · intro hunbroken
    exact (hunbroken (i, .deleted n) (by simp)).2 rfl
  · intro hmem
    exact absurd (List.mem_singleton.2 rfl) (mem_srem.1 hmem).2

theorem Inv.expire (h : Inv n (s, t)) (i : ι) : Inv n (s.expire n, t ++ [(i, .expired n)]) := by
  apply Inv.of_broken
  · intro hunbroken
    exact (hunbroken (i, .expired n) (by simp)).1 rfl
  · intro hmem
    refine (h.gone hmem).append fun e he => ?_
    cases List.mem_singleton.1 he
    exact nofun

/-- Names are taken out; that of a worker whose record was always there is none of them. -/
theorem Inv.remove (h : Inv n (s, t)) (queueNames : List QueueName) {names : List WorkerName}
    (hnames : Unbroken n t → n ∉ names) :
    Inv n ((s.removeAll names).removeQueues queueNames names, t) := by
  by_cases hn : n ∈ names
  · apply Inv.of_broken
    · exact fun hunbroken => hnames hunbroken hn
    · exact fun hmem => absurd hn (mem_srem.1 hmem).2
  · have hquiet : Quiet n s ((s.removeAll names).removeQueues queueNames names) [] := by
      refine ⟨rfl, ?_, fun q => ?_, nofun⟩
      · show n ∈ srem s.all names ↔ _
        rw [mem_srem]
        exact and_iff_left hn
      · show (n ∈ if q ∈ queueNames then srem (s.ofQueue q) names else s.ofQueue q) ↔ _
        split
        · rw [mem_srem]
          exact and_iff_left hn
        · rfl
    constructor
    · intro hunbroken
      have hpresent := h.unbroken hunbroken
      refine ⟨hpresent.record, fun hs => hquiet.all.2 (hpresent.all hs), fun j qs hj q hq => ?_, fun hmem => ?_⟩
      · exact (hquiet.ofQueue q).2 (hpresent.listed j qs hj q hq)
      · apply hpresent.known
        exact hmem.imp hquiet.all.1 fun ⟨q, hmem⟩ => ⟨q, (hquiet.ofQueue q).1 hmem⟩
    · exact fun hmem => h.gone (hquiet.all.1 hmem)

end Invariant

/-! ## The contracts of the parties -/

section Contracts

variable {n : WorkerName}

/-- Every step adds to the log and keeps the invariant. -/
def Guar (n : WorkerName) (c c' : Config State (ι × Event)) : Prop :=
  (∃ es, c'.2 = c.2 ++ es) ∧ (Inv n c → Inv n c')

def side (n : WorkerName) (i : ι) : Side State Event (ι × Event) := Side.amid (fun _ => Guar n) i

/-- The invariant, and what a party knows from the log. -/
def Know (n : WorkerName) (K : Log ι → Prop) (c : Config State (ι × Event)) : Prop := Inv n c ∧ K c.2

/-- It stays true as the log grows. -/
def Grows (K : Log ι → Prop) : Prop := ∀ t es, K t → K (t ++ es)

variable {i : ι} {K K' : Log ι → Prop}

theorem stable_know (hK : Grows K) : Stable (side n i).rely (Know n K) := by
  refine Side.stable_amid fun j _ c c' hg hc => ?_
  obtain ⟨⟨es, hes⟩, hinv⟩ := hg
  refine ⟨hinv hc.1, ?_⟩
  rw [hes]
  exact hK _ _ hc.2

theorem command_triple {f : State → Unit × State} {e : State → List Event} (hK : Grows K)
    (hK' : Grows K') (h : ∀ s t, Inv n (s, t) → K t →
      Inv n ((f s).2, t ++ (e s).map (i, ·)) ∧ K' (t ++ (e s).map (i, ·))) :
    (side n i).Triple (Know n K) (Prog.command f e : RosterProg Unit) (fun _ => Know n K')
      fun _ _ => True := by
  refine Side.Triple.command (stable_know hK) (fun _ => stable_know hK') fun s t hc => ?_
  obtain ⟨hinv, hknow⟩ := h s t hc.1 hc.2
  exact ⟨⟨⟨_, rfl⟩, fun _ => hinv⟩, hinv, hknow⟩

theorem write_triple {f : State → State} (hK : Grows K)
    (h : ∀ s t, Inv n (s, t) → K t → Inv n (f s, t)) :
    (side n i).Triple (Know n K) (Prog.write f : RosterProg Unit) (fun _ => Know n K)
      fun _ _ => True := by
  refine Side.Triple.write (stable_know hK) (stable_know hK) fun s t hc => ?_
  have hinv := h s t hc.1 hc.2
  exact ⟨⟨⟨[], by simp⟩, fun _ => hinv⟩, hinv, hc.2⟩

theorem read_triple {β : Type} {g : State → β} {K' : β → Log ι → Prop} (hK : Grows K)
    (hK' : ∀ b, Grows (K' b)) (h : ∀ s t, Inv n (s, t) → K t → K' (g s) t) :
    (side n i).Triple (Know n K) (Prog.read g : RosterProg β) (fun b => Know n (K' b))
      fun _ _ => True := by
  refine Side.Triple.read (stable_know hK) (fun b => stable_know (hK' b))
    (fun c _ => ⟨⟨[], by simp⟩, id⟩) fun s t hc => ?_
  exact ⟨hc.1, h s t hc.1 hc.2⟩

/-- Saved, if it is the worker in question. -/
def Mine (n m : WorkerName) (t : Log ι) : Prop := m = n → Saved n t

theorem grows_mine (m : WorkerName) : Grows (Mine n m : Log ι → Prop) :=
  fun _ es h hm => (h hm).append es

theorem save_triple (m : WorkerName) (queueNames : List QueueName) (writes : Bool) :
    (side n i).Triple (Know n fun t => writes = false → Mine n m t) (save m queueNames writes)
      (fun _ => Know n (Mine n m)) fun _ _ => True := by
  have hgrows : Grows (fun t : Log ι => writes = false → Mine n m t) :=
    fun t es h hw => grows_mine m t es (h hw)
  refine Side.Triple.bind (Q := fun _ => Know n (Mine n m)) ?_ fun _ => ?_
  · refine command_triple hgrows (grows_mine m) fun s t hinv hknow => ⟨?_, fun hm => ⟨i, by simp [hm]⟩⟩
    by_cases hm : m = n
    · subst hm
      exact hinv.save (fun hw _ => hknow hw rfl) i
    · refine hinv.quiet ⟨?_, ?_, fun q => ?_, ?_⟩ i
      · cases writes <;> simp [State.hset, State.addAll, Function.update_of_ne (Ne.symm hm)]
      · cases writes <;> simp [State.hset, State.addAll, mem_sadd, Ne.symm hm]
      · cases writes <;> rfl
      · intro e he
        rw [List.mem_singleton.1 he]
        exact hm
  · refine command_triple (grows_mine m) (grows_mine m) fun s t hinv hknow =>
      ⟨?_, fun hm => (hknow hm).append _⟩
    by_cases hm : m = n
    · subst hm
      exact hinv.list (hknow rfl) queueNames i
    · have hquiet : Quiet n s (s.addQueues m queueNames) [.listed m queueNames] := by
        refine ⟨rfl, Iff.rfl, fun q => ?_, fun e he => ?_⟩
        · show (n ∈ if q ∈ queueNames then sadd (s.ofQueue q) m else s.ofQueue q) ↔ _
          split
          · rw [mem_sadd]
            exact or_iff_right (Ne.symm hm)
          · rfl
        · rw [List.mem_singleton.1 he]
          exact hm
      exact hinv.quiet hquiet i

theorem setField_triple (m : WorkerName) (hK : Grows K) :
    (side n i).Triple (Know n K) (setField m) (fun _ => Know n K) fun _ _ => True := by
  refine write_triple hK fun s t hinv _ => ?_
  by_cases hm : m = n
  · subst hm
    exact hinv.setField
  · have hquiet : Quiet n s (s.hset m) [] :=
      ⟨Function.update_of_ne (Ne.symm hm) _ _, Iff.rfl, fun _ => Iff.rfl, nofun⟩
    have hkept := hinv.quiet hquiet i
    simpa using hkept

theorem delete_triple (m : WorkerName) (queueNames : List QueueName) (hK : Grows K) :
    (side n i).Triple (Know n K) (delete m queueNames) (fun _ => Know n K) fun _ _ => True := by
  refine command_triple hK hK fun s t hinv hknow => ⟨?_, hK _ _ hknow⟩
  by_cases hm : m = n
  · subst hm
    exact Inv.delete queueNames i
  · refine hinv.quiet ⟨?_, ?_, fun q => ?_, ?_⟩ i
    · exact Function.update_of_ne (Ne.symm hm) _ _
    · show n ∈ srem s.all [m] ↔ _
      rw [mem_srem, List.mem_singleton]
      exact and_iff_left (Ne.symm hm)
    · show (n ∈ if q ∈ queueNames then srem (s.ofQueue q) [m] else s.ofQueue q) ↔ _
      split
      · rw [mem_srem, List.mem_singleton]
        exact and_iff_left (Ne.symm hm)
      · rfl
    · intro e he
      rw [List.mem_singleton.1 he]
      exact hm

theorem expire_triple (m : WorkerName) (hK : Grows K) :
    (side n i).Triple (Know n K)
      (Prog.command (fun r => ((), r.expire m)) fun _ => [.expired m] : RosterProg Unit)
      (fun _ => Know n K) fun _ _ => True := by
  refine command_triple hK hK fun s t hinv hknow => ⟨?_, hK _ _ hknow⟩
  by_cases hm : m = n
  · subst hm
    exact hinv.expire i
  · have hquiet : Quiet n s (s.expire m) [.expired m] := by
      refine ⟨Function.update_of_ne (Ne.symm hm) _ _, Iff.rfl, fun _ => Iff.rfl, fun e he => ?_⟩
      rw [List.mem_singleton.1 he]
      exact hm
    exact hinv.quiet hquiet i

/-! ### Cleaning up -/

/-- Of the names that were read, the worker was saved before, if its record has always been there. -/
def Read (n : WorkerName) (names : List WorkerName) (t : Log ι) : Prop :=
  n ∈ names → Unbroken n t → Saved n t

/-- The worker is none of the names that were looked up and not found. -/
def Found (n : WorkerName) (invalid : List WorkerName) (t : Log ι) : Prop :=
  n ∈ invalid → ¬ Unbroken n t

theorem grows_found (invalid : List WorkerName) : Grows (Found n invalid : Log ι → Prop) :=
  fun _ _ h hmem hunbroken => h hmem hunbroken.of_append

theorem Grows.and (hK : Grows K) (hK' : Grows K') : Grows fun t => K t ∧ K' t :=
  fun t es h => ⟨hK t es h.1, hK' t es h.2⟩

theorem found_chunk {invalid subset : List WorkerName} {t : Log ι} (h : Found n invalid t)
    (hsubset : subset ∈ Chunks.chunks maxKeys invalid) : Unbroken n t → n ∉ subset :=
  fun hunbroken hmem => h (Chunks.mem_of_mem_chunk hsubset hmem) hunbroken

theorem mem_allNames {queueName : Option QueueName} {s : State} (h : n ∈ allNames queueName s) :
    n ∈ s.all ∨ ∃ q, n ∈ s.ofQueue q := by
  unfold allNames at h
  split at h
  · exact .inr ⟨_, h⟩
  · exact .inl h

/-- Between the reading of the names and that of the records, and up to the last removal, workers may come
and go; what carries the argument is that a log without a break stays one when its end is cut off. -/
theorem cleanup_triple (queueName : Option QueueName) (hK : Grows K) :
    (side n i).Triple (Know n K) (cleanup queueName) (fun _ => Know n K) fun _ _ => True := by
  unfold cleanup
  have hread : ∀ names, Grows (Read n names : Log ι → Prop) :=
    fun names t es h hmem hunbroken => (h hmem hunbroken.of_append).append es
  -- the names: each is that of a worker which was saved
  apply Side.Triple.bind (Q := fun names => Know n fun t => K t ∧ Read n names t)
  · refine read_triple hK (fun names => hK.and (hread names)) fun s t hinv hknow => ⟨hknow, ?_⟩
    intro hmem hunbroken
    exact (hinv.unbroken hunbroken).known (mem_allNames hmem)
  intro names
  -- the records: that of a saved worker is there
  apply Side.Triple.bind (Q := fun exist => Know n fun t => K t ∧
    Found n (((names.zip exist).filter fun p => !p.2).map Prod.fst) t)
  · refine read_triple (hK.and (hread names)) (fun _ => hK.and (grows_found _)) ?_
    intro s t hinv hknow
    refine ⟨hknow.1, fun hmem hunbroken => ?_⟩
    rw [invalid_eq, List.mem_filter] at hmem
    have hrecord : s.record n = true := (hinv.unbroken hunbroken).record (hknow.2 hmem.1 hunbroken)
    simp [hrecord] at hmem
  intro exist
  -- the removals
  have hgrows := hK.and (grows_found (n := n) (((names.zip exist).filter fun p => !p.2).map Prod.fst))
  refine Side.Triple.mono (Side.Triple.forEach (stable_know hgrows) _ fun subset hsubset => ?_)
    (fun _ hc => hc) (fun _ _ hc => ⟨hc.1, hc.2.1⟩) fun _ _ hx => hx
  apply write_triple hgrows
  intro s t hinv hknow
  exact hinv.remove (parents queueName) (found_chunk hknow.2 hsubset)

/-! ### The parties -/

/-- What a worker object does keeps the invariant, once it has been saved as a whole. -/
theorem step_triple (m : WorkerName) (queueNames : List QueueName) (step : Step) :
    (side n i).Triple (Know n (Mine n m)) (step.program m queueNames) (fun _ => Know n (Mine n m))
      fun _ _ => True := by
  cases step with
  | save writes => exact (save_triple m queueNames writes).pre fun c hc => ⟨hc.1, fun _ => hc.2⟩
  | heartbeat => exact (save_triple m queueNames true).pre fun c hc => ⟨hc.1, nofun⟩
  | setField => exact setField_triple m (grows_mine m)
  | delete => exact delete_triple m queueNames (grows_mine m)
  | cleanup queueName => exact cleanup_triple queueName (grows_mine m)

theorem party_triple (party : Party) :
    (side n i).Triple (Inv n) party.program (fun _ => Inv n) fun _ _ => True := by
  cases party with
  | worker m queueNames steps =>
      apply Side.Triple.bind (Q := fun _ => Know n (Mine n m))
      · exact (save_triple m queueNames true).pre fun c hc => ⟨hc, nofun⟩
      · intro _
        refine Side.Triple.mono (Side.Triple.forEach (stable_know (grows_mine m)) steps
          fun step _ => step_triple m queueNames step) (fun _ hc => hc) (fun _ _ hc => hc.1) fun _ _ hx => hx
  | broker names =>
      have hgrows : Grows (fun _ : Log ι => True) := fun _ _ h => h
      refine Side.Triple.mono (Side.Triple.forEach (stable_know hgrows) names
        fun m _ => expire_triple m hgrows) (fun _ hc => ⟨hc, trivial⟩) (fun _ _ hc => hc.1) fun _ _ hx => hx

end Contracts

/-! ## Any interleaving -/

theorem Inv.init (n : WorkerName) : Inv n (State.init, ([] : Log ι)) := by
  refine ⟨fun _ => ⟨?_, ?_, fun _ _ h => ?_, ?_⟩, ?_⟩
  · rintro ⟨i, hi⟩
    cases hi
  · rintro ⟨i, hi⟩
    cases hi
  · cases h
  · rintro (hmem | ⟨q, hmem⟩) <;> cases hmem
  · intro hmem
    cases hmem

variable [DecidableEq ι]

theorem inv_exec (parties : ι → Party) (schedule : List ι) (n : WorkerName) :
    Inv n ((pool parties).exec schedule).config := by
  have hsafe : (pool parties).AllSafe (side n) (fun _ _ => Inv n) fun _ _ _ => True :=
    fun i => party_triple (parties i) _ (Inv.init n)
  exact Pool.exec_invariant (fun _ _ => rfl) Side.amid_covers hsafe (fun _ _ _ hg hinv => hg.2 hinv)
    (Inv.init n) schedule

/-- **The roster is what the log says.** Whatever workers save, beat, delete themselves and clean up, in
whatever order their pipelines take effect and whatever records expire: a worker whose record has neither
expired nor been deleted is in the set of all workers exactly if it was saved, then has its record, and is in
the set of each of its queues from the second pipeline of its first save on; no cleanup that read the sets or
the records too early or too late takes it out. A worker in the set of all has been saved since it was last
deleted. -/
theorem roster_of_log (parties : ι → Party) (schedule : List ι) (n : WorkerName) :
    let P := (pool parties).exec schedule
    (Unbroken n P.log →
      (n ∈ P.state.all ↔ Saved n P.log) ∧
      (Saved n P.log → P.state.record n = true) ∧
      ∀ i queueNames, (i, Event.listed n queueNames) ∈ P.log → ∀ q ∈ queueNames, n ∈ P.state.ofQueue q) ∧
    (n ∈ P.state.all → SavedSince n P.log) := by
  have hinv := inv_exec parties schedule n
  refine ⟨fun hunbroken => ?_, hinv.gone⟩
  have hpresent := hinv.unbroken hunbroken
  refine ⟨⟨fun hmem => hpresent.known (.inl hmem), hpresent.all⟩, hpresent.record, hpresent.listed⟩

end DailyScheduler.Roster
