import DailyScheduler.Lib.Run
import DailyScheduler.Records.ReturnValues

set_option autoImplicit false

/-! # The latest result of a job

`Result.create` deletes the stream of the job, or appends to it and sets or removes its expiry. What
can be read of the stream later depends on the last call for the job only. The return value is read as
`_deserialize` reads the text that was sent for it, which is the value itself if it survives
(`Records/ReturnValues.lean`).
-/

namespace DailyScheduler.Results

open JsonText ReturnValues

/-! ## Calls of `Result.create` and the passing of time -/

/-- The arguments of `Result.create`. -/
structure Call (F : Type) where
  jobName : JobName
  workerName : Option WorkerName
  type : ResultType
  ttl : Int
  returnValue : Value F
  excString : Option String

/-- The entry that a call at time `now` writes, with the text `t` for its value. -/
def Call.entry {F : Type} (c : Call F) (now : Int) (t : Option Text) : Entry where
  parent := c.jobName
  type := c.type
  workerName := c.workerName.getD "unknown_worker"
  ttl := c.ttl
  createdAt := now
  returnValue := t
  excString := c.excString

inductive Op (F : Type) where
  | create (c : Call F)
  | wait (d : Nat)

/-- The clock and the streams. -/
structure State where
  now : Int
  streams : Streams

section Model

variable {F : Type} [DecidableEq F] (fl : FloatFormat F)

def Call.create (c : Call F) (s : State) : Except PyError Streams :=
  ReturnValues.create fl s.now c.jobName c.workerName c.type c.ttl c.returnValue c.excString s.streams

/-- A call that raises writes nothing. -/
def step (s : State) : Op F → State
  | .create c => match c.create fl s with
      | .ok m => { s with streams := m }
      | .error _ => s
  | .wait d => ⟨s.now + d, s.streams.purge (s.now + d)⟩

/-- The step is no call for the job. -/
def Spares (n : JobName) : Op F → Prop
  | .create c => c.jobName ≠ n
  | .wait _ => True

/-- The stream of the job does not expire in the step. -/
def Lasts (n : JobName) (s : State) : Op F → Prop
  | .create _ => True
  | .wait d => ∀ t, s.streams.deadline n = some t → s.now + d < t

omit [DecidableEq F] in
/-- What is left of the call `c`, made at time `now`, when there was none for its job since; `t` is the
text that it sent for the value. -/
structure Latest (c : Call F) (t : Option Text) (now : Int) (s : State) : Prop where
  fetched : fetchLatest fl c.jobName s.streams
    = if c.ttl = 0 then none else some (read fl (c.entry now t))
  contains_iff : s.streams.contains c.jobName = true ↔ c.ttl ≠ 0
  deadline : s.streams.deadline c.jobName = if 0 < c.ttl then some (now + secs c.ttl) else none

end Model

/-! ## One step -/

section Step

variable {F : Type} [DecidableEq F] {fl : FloatFormat F} {n : JobName} {s : State} {c : Call F}
  {o : Op F} {t : Option Text}

/-- A call whose value can be sent. -/
theorem create_of_sent (ht : sent fl c.returnValue = .ok t) (s : State) :
    c.create fl s = .ok (if c.ttl = 0 then s.streams.erase c.jobName
      else s.streams.xadd s.now (c.entry s.now t)) := by
  unfold Call.create ReturnValues.create
  rw [ht]
  split <;> rfl

theorem deadline_xadd (m : Streams) (now : Int) (r : Entry) :
    (m.xadd now r).deadline r.parent = if 0 < r.ttl then some (now + secs r.ttl) else none := by
  unfold ResultStreams.xadd
  dsimp only
  by_cases hpos : r.ttl > 0
  · rw [if_pos hpos, if_pos hpos, TtlMap.expireAt, TtlMap.deadline_setDeadline, if_pos]
    refine ⟨rfl, ?_⟩
    rw [TtlMap.contains_iff]
    exact ⟨_, TtlMap.find?_put_self ..⟩
  · rw [if_neg hpos, if_neg hpos, TtlMap.deadline_persist, if_pos rfl]

theorem entry_xadd {m : Streams} {now : Int} {r : Entry} (h : r.parent ≠ n) :
    (m.xadd now r).entry n = m.entry n := by
  have hne : n ≠ r.parent := fun heq => h heq.symm
  unfold ResultStreams.xadd
  dsimp only
  split
  · exact (TtlMap.entry_setDeadline_of_ne _ _ hne).trans (TtlMap.entry_put_of_ne _ _ hne)
  · exact (TtlMap.entry_setDeadline_of_ne _ _ hne).trans (TtlMap.entry_put_of_ne _ _ hne)

/-- A call leaves the streams of other jobs alone. -/
theorem entry_create (h : c.jobName ≠ n) (s : State) :
    (step fl s (.create c)).streams.entry n = s.streams.entry n := by
  unfold step
  dsimp only
  cases ht : sent fl c.returnValue with
  | ok t =>
      rw [create_of_sent ht]
      dsimp only
      split
      · exact TtlMap.entry_erase_of_ne _ fun heq => h heq.symm
      · exact entry_xadd h
  | error x =>
      unfold Call.create ReturnValues.create
      rw [ht]
      split
      · rename_i hm
        split at hm
        · cases hm
          exact TtlMap.entry_erase_of_ne _ fun heq => h heq.symm
        · cases hm
      · rfl

theorem entry_wait {d : Nat} (h : ∀ t, s.streams.deadline n = some t → s.now + d < t) :
    (step fl s (.wait d)).streams.entry n = s.streams.entry n := by
  unfold TtlMap.deadline at h
  unfold step TtlMap.purge
  dsimp only
  cases hentry : s.streams.entry n with
  | none => rfl
  | some p =>
      obtain ⟨l, t⟩ := p
      rw [hentry] at h
      cases t with
      | none => rfl
      | some t =>
          have hlt : s.now + d < t := h t rfl
          simp [Option.filter, hlt]

theorem entry_step (h : Spares n o) (hlasts : Lasts n s o) :
    (step fl s o).streams.entry n = s.streams.entry n := by
  cases o with
  | create c => exact entry_create h s
  | wait d => exact entry_wait hlasts

/-- What the call itself leaves. -/
theorem latest_create (ht : sent fl c.returnValue = .ok t) (s : State) :
    Latest fl c t s.now (step fl s (.create c)) := by
  have hstep : step fl s (.create c) = ⟨s.now, if c.ttl = 0 then s.streams.erase c.jobName
      else s.streams.xadd s.now (c.entry s.now t)⟩ := by
    unfold step
    dsimp only
    rw [create_of_sent ht]
  rw [hstep]
  by_cases httl : c.ttl = 0
  · have hnone : (s.streams.erase c.jobName).entry c.jobName = none := Function.update_self ..
    rw [if_pos httl]
    constructor
    · unfold fetchLatest TtlMap.find?
      rw [hnone, if_pos httl]
      rfl
    · unfold TtlMap.contains
      simp [hnone, httl]
    · unfold TtlMap.deadline
      rw [hnone, if_neg (by omega)]
      rfl
  · rw [if_neg httl]
    constructor
    · rw [if_neg httl]
      exact fetchLatest_xadd s.now (c.entry s.now t) s.streams
    · refine iff_of_true ?_ httl
      obtain ⟨l, hl, -⟩ := Option.bind_eq_some_iff.1 (find?_xadd s.streams s.now (c.entry s.now t))
      exact (TtlMap.contains_iff _ _).2 ⟨l, hl⟩
    · exact deadline_xadd s.streams s.now (c.entry s.now t)

omit [DecidableEq F] in
/-- What is left of a call depends on the stream of its job only. -/
theorem Latest.congr {now : Int} {s' : State} (h : Latest fl c t now s)
    (hentry : s'.streams.entry c.jobName = s.streams.entry c.jobName) : Latest fl c t now s' := by
  constructor
  · rw [← h.fetched]
    unfold fetchLatest TtlMap.find?
    rw [hentry]
  · rw [← h.contains_iff]
    unfold TtlMap.contains
    rw [hentry]
  · rw [← h.deadline]
    unfold TtlMap.deadline
    rw [hentry]

end Step

/-! ## Runs -/

/-- While a stream does not expire, only calls for its job change it. -/
theorem entry_run {F : Type} [DecidableEq F] {fl : FloatFormat F} {n : JobName} {s : State}
    {ops : List (Op F)} (h : ∀ o ∈ ops, Spares n o) (hlasts : Run.Meets (step fl) (Lasts n) s ops) :
    (Run.last (step fl) s ops).streams.entry n = s.streams.entry n := by
  induction ops generalizing s with
  | nil => rfl
  | cons o ops ih =>
      obtain ⟨ho, hrest⟩ := hlasts
      calc (Run.last (step fl) s (o :: ops)).streams.entry n
          = (Run.last (step fl) (step fl s o) ops).streams.entry n := rfl
        _ = (step fl s o).streams.entry n := ih (fun o' ho' => h o' (List.mem_cons_of_mem o ho')) hrest
        _ = s.streams.entry n := entry_step (h o List.mem_cons_self) ho

/-- **The last call for a job decides.** As long as its stream does not expire, the latest result of a
job, whether its stream exists, and when it expires are what the last call for the job makes them,
whatever calls came before or were made for other jobs; and calls for other jobs leave the stream
as it is. The return value is read as the text that the call sent, so it is the value of the call exactly
if that survives. -/
theorem latest_of_run {F : Type} [DecidableEq F] (fl : FloatFormat F) (s : State) :
    (∀ before c after t, sent fl c.returnValue = .ok t → (∀ o ∈ after, Spares c.jobName o) →
      Run.Meets (step fl) (Lasts c.jobName) (step fl (Run.last (step fl) s before) (.create c)) after →
      (c.create fl (Run.last (step fl) s before)).isOk = true ∧
      Latest fl c t (Run.last (step fl) s before).now
        (Run.last (step fl) s (before ++ .create c :: after))) ∧
    (∀ (c : Call F) now t, fl.Lawful → (∀ x ∈ c.returnValue.pieces, x.Proper fl) →
      sent fl c.returnValue = .ok t →
      ((read fl (c.entry now t)).returnValue = c.returnValue ↔ Survives fl c.returnValue)) ∧
    ∀ n ops, (∀ o ∈ ops, Spares n o) → Run.Meets (step fl) (Lasts n) s ops →
      (Run.last (step fl) s ops).streams.entry n = s.streams.entry n := by
  refine ⟨?_, ?_, ?_⟩
  · intro before c after t ht hspares hlasts
    constructor
    · rw [create_of_sent ht]
      rfl
    · have hlast : Run.last (step fl) s (before ++ .create c :: after)
          = Run.last (step fl) (step fl (Run.last (step fl) s before) (.create c)) after := by
        unfold Run.last
        rw [List.foldl_append, List.foldl_cons]
      rw [hlast]
      exact (latest_create ht _).congr (entry_run hspares hlasts)
  · intro c now t hfl hproper ht
    rw [← readsBack_iff hfl hproper]
    constructor
    · exact fun hread => ⟨t, ht, hread⟩
    · rintro ⟨t', ht', hread⟩
      rw [ht] at ht'
      cases ht'
      exact hread
  · intro n ops hspares hlasts
    exact entry_run hspares hlasts

/-- A result that was to expire is kept by the next call, and deleted by the one after it. -/
def sampleCall (ttl : Int) : Call SampleFloat :=
  ⟨"a", some "worker", .successful, ttl, sampleValue, none⟩

theorem sample_latest : ∃ t,
    Latest wholeFormat (sampleCall (-1)) t 0 (Run.last (step wholeFormat) ⟨0, .empty⟩
      [.create (sampleCall 100), .create (sampleCall (-1)), .wait 200000000]) ∧
    Latest wholeFormat (sampleCall 0) t 200000000 (Run.last (step wholeFormat) ⟨0, .empty⟩
      [.create (sampleCall 100), .create (sampleCall (-1)), .wait 200000000,
        .create (sampleCall 0)]) ∧
    (read wholeFormat ((sampleCall (-1)).entry 0 t)).returnValue = sampleValue := by
  obtain ⟨hrun, hvalue, -⟩ := latest_of_run wholeFormat ⟨0, .empty⟩
  have hsurvives : Survives wholeFormat sampleValue := fun x hx => (sample_survives x hx).2
  have hproper := fun x hx => (sample_survives x hx).1
  obtain ⟨t, ht, -⟩ := (readsBack_iff wholeFormat_lawful hproper).2 hsurvives
  refine ⟨t, ?_, ?_, ?_⟩
  · refine (hrun [.create (sampleCall 100)] (sampleCall (-1)) [.wait 200000000] t ht ?_ ?_).2
    · intro o ho
      rw [List.mem_singleton.1 ho]
      trivial
    · refine ⟨fun d hd => ?_, trivial⟩
      cases hd
  · exact (hrun [.create (sampleCall 100), .create (sampleCall (-1)), .wait 200000000] (sampleCall 0) []
      t ht (by simp) trivial).2
  · exact (hvalue (sampleCall (-1)) 0 t wholeFormat_lawful hproper ht).2 hsurvives

end DailyScheduler.Results
